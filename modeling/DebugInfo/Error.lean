import DebugInfo.Ident

/-!
# Errors

A key that leads nowhere is no error: the operation skips its update.  An error says that an id
leads to an entry of the wrong kind, or to none at all.
-/

namespace DebugInfo

inductive Table where
  | types
  | definitions
  | locals
deriving DecidableEq, Repr

def Table.title : Table → String
  | .types => "type table"
  | .definitions => "definition table"
  | .locals => "local table"

inductive TableError where
  /-- The entry is of another kind than the operation works on. -/
  | unexpectedVariant (table : Table) (id : EntryId) (expected found : String)
  | unknownId (table : Table) (id : EntryId)
deriving DecidableEq, Repr

def TableError.message : TableError → String
  | .unexpectedVariant table id expected found =>
      table.title ++ " entry " ++ id.text ++ " is a " ++ found ++ ", expected a " ++ expected
  | .unknownId table id => table.title ++ " has no entry for " ++ id.text

end DebugInfo
