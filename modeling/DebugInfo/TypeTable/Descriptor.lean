import DebugInfo.Location
import DebugInfo.TypeExpr.Basic

/-!
# Type descriptors

What a unit stores of one type.  A descriptor refers to the types it is made of by their ids, so
the descriptors of a unit form a graph; composites, enums and typedef names may be referred to
before they are defined.
-/

namespace DebugInfo

/-- A member of a struct or union.  The layout is filled in later. -/
structure Member where
  name : Name
  type : EntryId
  bitSize : Option Nat := none
  bitOffset : Option Nat := none
  byteOffset : Option Nat := none
  byteSize : Option Nat := none
  /-- The integer type that a bit-field is carved out of. -/
  carrier : Option Name := none
deriving DecidableEq, Repr

structure BitfieldLayout where
  bitSize : Nat
  bitOffset : Nat
  byteOffset : Nat
  byteSize : Nat
  carrier : Name
deriving DecidableEq, Repr

def Member.withLayout (l : BitfieldLayout) (m : Member) : Member :=
  { m with
    bitSize := some l.bitSize
    bitOffset := some l.bitOffset
    byteOffset := some l.byteOffset
    byteSize := some l.byteSize
    carrier := some l.carrier }

structure Enumerator where
  name : Name
  value : Int
deriving DecidableEq, Repr

structure Composite where
  kind : CompositeKind
  tag : Name
  loc : Option SourceLoc := none
  byteSize : Option Nat := none
  isDefined : Bool := false
  members : List Member := []
deriving DecidableEq, Repr

structure Enumeration where
  tag : Name
  loc : Option SourceLoc := none
  byteSize : Option Nat := none
  enumerators : List Enumerator := []
deriving DecidableEq, Repr

/-- A typedef name; it has no target until it is resolved. -/
structure Alias where
  name : Name
  loc : Option SourceLoc := none
  target : Option EntryId := none
deriving DecidableEq, Repr

inductive Descriptor where
  | void
  | integer (kind : IntegerKind)
  | floating (kind : FloatingKind)
  | pointer (target : EntryId)
  /-- The lengths of all dimensions, outermost first. -/
  | array (element : EntryId) (lengths : List (Option Nat))
  | composite (c : Composite)
  | enumeration (e : Enumeration)
  /-- No result stands for `void`, no parameter list for one that is not declared. -/
  | function (result : Option EntryId) (params : Option (List (Name × EntryId)))
  | alias (a : Alias)
  | qualified (q : Qualifier) (inner : EntryId)
deriving DecidableEq, Repr

namespace Descriptor

def kindName : Descriptor → String
  | .void => "void"
  | .integer _ => "integer"
  | .floating _ => "float"
  | .pointer _ => "pointer"
  | .array _ _ => "array"
  | .composite _ => "composite"
  | .enumeration _ => "enum"
  | .function _ _ => "function"
  | .alias _ => "typedef"
  | .qualified q _ => q.keyword

def loc : Descriptor → Option SourceLoc
  | .composite c => c.loc
  | .enumeration e => e.loc
  | .alias a => a.loc
  | _ => none

/-- The descriptor of a base type before anything is known about its definition. -/
def ofBase : BaseType → Descriptor
  | .void => .void
  | .integer kind => .integer kind
  | .floating kind => .floating kind
  | .alias name _ => .alias { name }
  | .composite kind tag _ => .composite { kind, tag }
  | .enumeration tag _ => .enumeration { tag }

/-- The descriptor of an array whose elements are described by `d`, if that is an array. -/
def addDimension (n : Option Nat) : Descriptor → Descriptor
  | .array element lengths => .array element (n :: lengths)
  | d => d

end Descriptor

end DebugInfo
