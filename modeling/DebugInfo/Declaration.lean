import DebugInfo.TypeTable.Descriptor

/-!
# Declarations

What the frontend hands over for each declaration of a unit.
-/

namespace DebugInfo

inductive StorageClass where
  /-- No storage class is written. -/
  | unspecified
  | external
  | static
  | auto
  | register
deriving DecidableEq, Repr

namespace StorageClass

instance : Inhabited StorageClass := ⟨.unspecified⟩

/-- Whether a declaration at file scope is visible to other units. -/
def isExternal (s : StorageClass) : Bool := s != .static

end StorageClass

/-- A variable at file scope. -/
structure VariableDecl where
  name : Name
  stamp : Stamp
  storage : StorageClass
  type : TypeExpr Attr
  hasInitializer : Bool
  loc : SourceLoc

structure ParameterDecl where
  name : Name
  stamp : Stamp
  type : TypeExpr Attr

/-- A function with a body. -/
structure FunctionDecl where
  name : Name
  stamp : Stamp
  storage : StorageClass
  result : TypeExpr Attr
  params : List ParameterDecl
  variadic : Bool
  loc : SourceLoc

/-- A function without a body: a prototype, or the declaration that a call implies. -/
structure PrototypeDecl where
  name : Name
  stamp : Stamp
  storage : StorageClass
  /-- Normally the type of a function; any other type is taken for the result. -/
  type : TypeExpr Attr
  loc : SourceLoc

structure MemberDecl where
  name : Name
  type : TypeExpr Attr
  /-- The declared width of a bit-field. -/
  width : Option Nat

structure CompositeDecl where
  kind : CompositeKind
  tag : Name
  stamp : Stamp
  loc : SourceLoc
  /-- A forward declaration has no list of members. -/
  members : Option (List MemberDecl)
  byteSize : Option Nat

structure EnumDecl where
  tag : Name
  stamp : Stamp
  loc : SourceLoc
  enumerators : List Enumerator
  byteSize : Option Nat

structure TypedefDecl where
  name : Name
  stamp : Stamp
  type : TypeExpr Attr
  loc : SourceLoc

/-- A variable in a block. -/
structure LocalDecl where
  name : Name
  stamp : Stamp
  storage : StorageClass
  type : TypeExpr Attr
  loc : SourceLoc

/-- A declaration at file scope. -/
inductive Declaration where
  | variable (d : VariableDecl)
  | function (d : FunctionDecl)
  | prototype (d : PrototypeDecl)
  | composite (d : CompositeDecl)
  | enum (d : EnumDecl)
  | typedef (d : TypedefDecl)

def Declaration.loc : Declaration → SourceLoc
  | .variable d => d.loc
  | .function d => d.loc
  | .prototype d => d.loc
  | .composite d => d.loc
  | .enum d => d.loc
  | .typedef d => d.loc

end DebugInfo
