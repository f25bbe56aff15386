import DebugInfo.CompilationUnit.Types

/-!
# Blocks of a unit

Local variables, scopes, and what the code generator reports about them.  A unit that does not
track locals takes note of the files of local declarations and ignores the rest.
-/

namespace DebugInfo

namespace CompilationUnit

/-! ## Declarations -/

def declareLocal (d : LocalDecl) : StateM CompilationUnit (Option EntryId) := do
  addFile d.loc.file
  if (← get).tracksLocals then
    let type ← internType d.type
    let v : LocalVariable :=
      { name := d.name, loc := d.loc, type, isStatic := d.storage == .static }
    fun u =>
      let (id, ids, locals) := u.locals.declare u.ids d.stamp v
      (some id, { u with ids, locals })
  else
    return none

/-- Enter the outermost block of a function.  The symbol of the function may have been bound under
another stamp before, so the scopes of this stamp are made to be reached by it first. -/
def enterFunction (function : Stamp) (block : Block) : UnitM (Option EntryId) := fun u =>
  if u.tracksLocals then
    match u.definitions.idByStamp? function with
    | none => (.ok none, u)
    | some id =>
      match u.definitions.functionAt id with
      | .error e => (.error e, u)
      | .ok f =>
          let locals :=
            match f.symbol with
            | some symbol => (u.locals.linkSymbol function symbol).2
            | none => u.locals
          let (scope, ids, locals) := locals.enter u.ids function block
          match u.definitions.setRootScope id scope with
          | .error e => (.error e, { u with ids, locals })
          | .ok definitions => (.ok (some scope), { u with ids, locals, definitions })
  else
    (.ok none, u)

def enterChild (function : Stamp) (parent block : Block) : UnitM (Option EntryId) := do
  if (← get).tracksLocals then
    onLocals fun l ids => l.enterChild ids function parent block
  else
    return none

def attach (function stamp : Stamp) (block : Block) : UnitM Bool := do
  if (← get).tracksLocals then
    onLocals fun l ids => (l.attach function stamp block).map fun (b, l) => (b, ids, l)
  else
    return false

def bindLocal (stamp : Stamp) (symbol : Symbol) :
    StateM CompilationUnit (Option EntryId) := fun u =>
  match u.locals.bindSymbol stamp symbol with
  | none => (none, u)
  | some (id, locals) => (some id, { u with locals })

/-! ## Emission -/

/-- An event as the code generator reports it, in terms of symbols. -/
inductive Emission where
  | openScope (function : Symbol) (block : Block) (addr : Address)
  | closeScope (function : Symbol) (block : Block) (addr : Address)
  | startRange (var : Symbol) (addr : Address) (place : Place)
  | endRange (var : Symbol) (addr : Address)
  | setFixed (var : Symbol) (frameOffset : Int) (place : Place)
  | endFunction (function : Symbol) (addr : Address)
deriving DecidableEq, Repr

/-- The scope of a block of a function, if the unit tracks it. -/
def scopeOf? (u : CompilationUnit) (function : Symbol) (block : Block) : Option EntryId :=
  if u.tracksLocals then u.locals.scopeBySymbol? function block else none

/-- The local variable of a symbol, if the unit tracks it. -/
def variableOf? (u : CompilationUnit) (var : Symbol) : Option EntryId :=
  if u.tracksLocals then u.locals.idBySymbol? var else none

/-- The event in terms of entries; there is none if its symbol is not known. -/
def event? (u : CompilationUnit) : Emission → Option Lifetimes.Event
  | .openScope function block addr =>
      (u.scopeOf? function block).map (.openScope · addr)
  | .closeScope function block addr =>
      (u.scopeOf? function block).map (.closeScope · addr)
  | .startRange var addr place => (u.variableOf? var).map (.startRange · addr place)
  | .endRange var addr => (u.variableOf? var).map (.endRange · addr)
  | .setFixed var frameOffset place =>
      (u.variableOf? var).map (.setFixed · frameOffset place)
  | .endFunction _ addr => some (.endFunction addr)

def emit (e : Emission) : StateM CompilationUnit Unit :=
  modify fun u =>
    match u.event? e with
    | some event => { u with lifetimes := u.lifetimes.apply event }
    | none => u

end CompilationUnit

end DebugInfo
