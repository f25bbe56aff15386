import DebugInfo.Error
import DebugInfo.FirstMatch
import DebugInfo.TypeTable.Basic

/-!
# Updates of types

What is learned about a type after it was first mentioned is written into its descriptor, so every
id that was handed out before leads to the completed type.  An update works on one kind of
descriptor and says whether it changed anything.
-/

namespace DebugInfo

inductive TypeUpdate where
  | compositeSize (bytes : Nat)
  | members (members : List Member)
  | memberOffset (member : Name) (bytes : Nat)
  | memberLayout (member : Name) (layout : BitfieldLayout)
  | enumerators (enumerators : List Enumerator)
  | enumSize (bytes : Nat)
  | target (target : EntryId)
  /-- Only the first location is kept. -/
  | loc (loc : SourceLoc)
deriving DecidableEq, Repr

/-- Change the first member of that name, if there is one. -/
def updateMember (name : Name) (f : Member → Member) (ms : List Member) : List Member :=
  updateFirst (·.name == name) f ms

namespace TypeUpdate

/-- The kinds of descriptors that the update works on. -/
def expected : TypeUpdate → String
  | .compositeSize _ | .members _ | .memberOffset _ _ | .memberLayout _ _ => "composite"
  | .enumerators _ | .enumSize _ => "enum"
  | .target _ => "typedef"
  | .loc _ => "composite, enum or typedef"

/-- The descriptor after the update, unless it is of another kind. -/
def result? : TypeUpdate → Descriptor → Option Descriptor
  | .compositeSize n, .composite c => some (.composite { c with byteSize := some n })
  | .members ms, .composite c => some (.composite { c with members := ms, isDefined := true })
  | .memberOffset name n, .composite c =>
      some (.composite { c with
        members := updateMember name ({ · with byteOffset := some n }) c.members })
  | .memberLayout name l, .composite c =>
      some (.composite { c with members := updateMember name (·.withLayout l) c.members })
  | .enumerators es, .enumeration e => some (.enumeration { e with enumerators := es })
  | .enumSize n, .enumeration e => some (.enumeration { e with byteSize := some n })
  | .target id, .alias a => some (.alias { a with target := some id })
  | .loc l, .composite c => some (.composite { c with loc := c.loc.or (some l) })
  | .loc l, .enumeration e => some (.enumeration { e with loc := e.loc.or (some l) })
  | .loc l, .alias a => some (.alias { a with loc := a.loc.or (some l) })
  | _, _ => none

end TypeUpdate

namespace TypeTable

/-- Update the descriptor of an id; the flag says whether it is another one afterwards. -/
def update (table : TypeTable) (id : EntryId) (u : TypeUpdate) :
    Except TableError (Bool × TypeTable) :=
  match table.get? id with
  | none => .error (.unknownId .types id)
  | some d =>
    match u.result? d with
    | none => .error (.unexpectedVariant .types id u.expected d.kindName)
    | some d' =>
      if d' = d then
        .ok (false, table)
      else
        .ok (true, { table with descriptors := table.descriptors.insert id d' })

end TypeTable

end DebugInfo
