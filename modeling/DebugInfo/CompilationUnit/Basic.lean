import DebugInfo.Config
import DebugInfo.Definitions
import DebugInfo.Labels
import DebugInfo.Lifetimes
import DebugInfo.Locals
import DebugInfo.Sections
import DebugInfo.TypeTable.Update

/-!
# Compilation units

All tables of one unit, with the supply that their entry ids come from.  A unit is filled by the
frontend, then by the pass that binds symbols, then by the code generator, and read afterwards.
It is restarted for the next unit, with the same configuration.
-/

namespace DebugInfo

structure CompilationUnit where
  config : Config
  name : String
  ids : IdSupply
  types : TypeTable
  definitions : Definitions
  locals : Locals
  lifetimes : Lifetimes
  sections : Sections
  labels : Labels

/-- Operations on a unit.  What an operation did before it failed stays done. -/
abbrev UnitM := ExceptT TableError (StateM CompilationUnit)

namespace CompilationUnit

def new (config : Config) : CompilationUnit where
  config
  name := ""
  ids := {}
  types := .empty config.keys
  definitions := ∅
  locals := ∅
  lifetimes := ∅
  sections := ∅
  labels := ∅

/-- Begin a unit of that name: every table is empty, and ids start from zero. -/
def restart (u : CompilationUnit) (name : String) : CompilationUnit :=
  { u with
    name
    ids := u.ids.reset
    types := u.types.clear
    definitions := u.definitions.clear
    locals := u.locals.clear
    lifetimes := u.lifetimes.clear
    sections := u.sections.clear
    labels := u.labels.clear }

def tracksLocals (u : CompilationUnit) : Bool := u.config.tracksLocals

/-- An entry id that no table uses. -/
def freshId : StateM CompilationUnit EntryId := fun u =>
  let (id, ids) := u.ids.fresh
  (id, { u with ids })

def addFile (file : Name) : StateM CompilationUnit Unit :=
  modify fun u => { u with sections := u.sections.addFile file }

/-- Apply an operation of the definition table that takes ids from the supply. -/
def onDefinitions {α : Type}
    (f : Definitions → IdSupply → Except TableError (α × IdSupply × Definitions)) : UnitM α :=
  fun u =>
    match f u.definitions u.ids with
    | .ok (a, ids, definitions) => (.ok a, { u with ids, definitions })
    | .error e => (.error e, u)

/-- Apply an operation of the definition table that answers with a flag. -/
def changeDefinitions (f : Definitions → Except TableError (Bool × Definitions)) : UnitM Bool :=
  onDefinitions fun g ids => (f g).map fun (b, g) => (b, ids, g)

/-- Apply an operation of the local table that takes ids from the supply. -/
def onLocals {α : Type}
    (f : Locals → IdSupply → Except TableError (α × IdSupply × Locals)) : UnitM α :=
  fun u =>
    match f u.locals u.ids with
    | .ok (a, ids, locals) => (.ok a, { u with ids, locals })
    | .error e => (.error e, u)

end CompilationUnit

end DebugInfo
