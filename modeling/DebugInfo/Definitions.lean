import Std.Data.ExtTreeSet
import DebugInfo.Declaration
import DebugInfo.Error
import DebugInfo.FirstMatch

/-!
# Definitions

The global variables and functions of a unit.  A definition is found by the stamps of its
declarations, by the symbol bound to it, and, if it is a function, by its name: a call can declare a
function under a stamp of its own before the function is defined.

An operation that fails gives no table, so the one it was applied to is still the current one.
-/

namespace DebugInfo

/-- The addresses of a function's code. -/
structure CodeRange where
  low : Address
  high : Address
deriving DecidableEq, Repr

structure Variable where
  name : Name
  symbol : Option Symbol := none
  loc : SourceLoc
  /-- Every declaration so far was `extern` and without an initializer. -/
  isTentative : Bool
  isExternal : Bool
  type : EntryId
deriving DecidableEq, Repr

structure Parameter where
  name : Name
  stamp : Stamp
  symbol : Option Symbol := none
  type : EntryId
deriving DecidableEq, Repr

structure Function where
  name : Name
  symbol : Option Symbol := none
  loc : SourceLoc
  isExternal : Bool
  /-- No result stands for `void`. -/
  result : Option EntryId
  isVariadic : Bool
  params : List Parameter := []
  code : Option CodeRange := none
  rootScope : Option EntryId := none
  hasBody : Bool := false
deriving DecidableEq, Repr

inductive Definition where
  | variable (v : Variable)
  | function (f : Function)
deriving DecidableEq, Repr

namespace Definition

def kindName : Definition → String
  | .variable _ => "global variable"
  | .function _ => "function"

def name : Definition → Name
  | .variable v => v.name
  | .function f => f.name

def symbol : Definition → Option Symbol
  | .variable v => v.symbol
  | .function f => f.symbol

def loc : Definition → SourceLoc
  | .variable v => v.loc
  | .function f => f.loc

def isFunction : Definition → Bool
  | .variable _ => false
  | .function _ => true

def withSymbol (s : Symbol) : Definition → Definition
  | .variable v => .variable { v with symbol := some s }
  | .function f => .function { f with symbol := some s }

@[simp] theorem symbol_withSymbol (s : Symbol) (d : Definition) :
    (d.withSymbol s).symbol = some s := by
  cases d <;> rfl

@[simp] theorem isFunction_withSymbol (s : Symbol) (d : Definition) :
    (d.withSymbol s).isFunction = d.isFunction := by
  cases d <;> rfl

end Definition

/-- What prototypes and definitions say about a function. -/
structure Signature where
  name : Name
  stamp : Stamp
  storage : StorageClass
  loc : SourceLoc
  result : Option EntryId
  isVariadic : Bool
deriving DecidableEq, Repr

/-- A function that has only been declared. -/
def Signature.declared (s : Signature) : Function where
  name := s.name
  loc := s.loc
  isExternal := s.storage.isExternal
  result := s.result
  isVariadic := s.isVariadic

/-- A function with these parameters and a body. -/
def Signature.defined (s : Signature) (params : List Parameter) : Function :=
  { s.declared with params, hasBody := true }

structure Definitions where
  entries : EntryMap Definition
  byStamp : Std.ExtTreeMap Stamp EntryId
  byName : Std.ExtTreeMap Name EntryId
  bySymbol : Std.ExtTreeMap Symbol EntryId
  /-- Globals that have been written out already. -/
  printed : Std.ExtTreeSet Name

namespace Definitions

def empty : Definitions where
  entries := ∅
  byStamp := ∅
  byName := ∅
  bySymbol := ∅
  printed := ∅

instance : EmptyCollection Definitions := ⟨empty⟩

def clear (g : Definitions) : Definitions :=
  { g with entries := ∅, byStamp := ∅, byName := ∅, bySymbol := ∅, printed := ∅ }

@[simp] theorem clear_eq_empty (g : Definitions) : g.clear = ∅ := rfl

def get? (g : Definitions) (id : EntryId) : Option Definition := g.entries[id]?

def size (g : Definitions) : Nat := g.entries.size

def isEmpty (g : Definitions) : Bool := g.entries.isEmpty

def toList (g : Definitions) : List (EntryId × Definition) := g.entries.toList

def idByStamp? (g : Definitions) (stamp : Stamp) : Option EntryId := g.byStamp[stamp]?

def idByName? (g : Definitions) (name : Name) : Option EntryId := g.byName[name]?

def idBySymbol? (g : Definitions) (symbol : Symbol) : Option EntryId := g.bySymbol[symbol]?

/-- The stamps that lead to a definition, in ascending order. -/
def stamps (g : Definitions) (id : EntryId) : List Stamp :=
  (g.byStamp.toList.filter (·.2 == id)).map (·.1)

def markPrinted (g : Definitions) (name : Name) : Definitions :=
  { g with printed := g.printed.insert name }

def isPrinted (g : Definitions) (name : Name) : Bool := g.printed.contains name

/-- The function that an id leads to. -/
def functionAt (g : Definitions) (id : EntryId) : Except TableError Function :=
  match g.get? id with
  | some (.function f) => .ok f
  | some d => .error (.unexpectedVariant .definitions id "function" d.kindName)
  | none => .error (.unknownId .definitions id)

/-- The variable that an id leads to. -/
def variableAt (g : Definitions) (id : EntryId) : Except TableError Variable :=
  match g.get? id with
  | some (.variable v) => .ok v
  | some d => .error (.unexpectedVariant .definitions id "global variable" d.kindName)
  | none => .error (.unknownId .definitions id)

def put (g : Definitions) (id : EntryId) (d : Definition) : Definitions :=
  { g with entries := g.entries.insert id d }

/-! ## Declarations -/

/-- Record a variable.  Its first declaration makes the definition; a later one that is defining
ends its being tentative. -/
def declareVariable (g : Definitions) (ids : IdSupply) (stamp : Stamp) (v : Variable)
    (defining : Bool) : Except TableError (EntryId × IdSupply × Definitions) :=
  match g.idByStamp? stamp with
  | none =>
      let (id, ids) := ids.fresh
      .ok (id, ids, { g.put id (.variable v) with byStamp := g.byStamp.insert stamp id })
  | some id => (g.variableAt id).map fun old =>
      (id, ids, g.put id (.variable { old with isTentative := old.isTentative && !defining }))

/-- The stamp of a function leads to its definition, and otherwise its name does. -/
def idOf? (g : Definitions) (s : Signature) : Option EntryId :=
  (g.idByStamp? s.stamp).or (g.idByName? s.name)

/-- Store a function and let its stamp and its name lead to it. -/
def record (g : Definitions) (id : EntryId) (s : Signature) (f : Function) : Definitions :=
  { g.put id (.function f) with
    byStamp := g.byStamp.insert s.stamp id
    byName := g.byName.insert s.name id }

/-- Record a function without a body.  One that is known already stays as it is, and is reached
under the new stamp as well. -/
def declarePrototype (g : Definitions) (ids : IdSupply) (s : Signature) :
    Except TableError (EntryId × IdSupply × Definitions) :=
  match g.idOf? s with
  | some id => (g.functionAt id).map fun _ =>
      (id, ids, { g with byStamp := g.byStamp.insertIfNew s.stamp id })
  | none =>
      let (id, ids) := ids.fresh
      .ok (id, ids, g.record id s s.declared)

/-- Record a function with a body.  What has been bound to it already is kept. -/
def defineFunction (g : Definitions) (ids : IdSupply) (s : Signature) (params : List Parameter) :
    Except TableError (EntryId × IdSupply × Definitions) :=
  match g.idOf? s with
  | some id => (g.functionAt id).map fun old =>
      (id, ids, g.record id s
        { s.defined params with symbol := old.symbol, code := old.code, rootScope := old.rootScope })
  | none =>
      let (id, ids) := ids.fresh
      .ok (id, ids, g.record id s (s.defined params))

/-! ## Bindings -/

/-- Bind a symbol to the definition of a stamp, if there is one. -/
def bindSymbol (g : Definitions) (stamp : Stamp) (symbol : Symbol) :
    Option (EntryId × Definitions) := do
  let id ← g.idByStamp? stamp
  let d ← g.get? id
  return (id, { g.put id (d.withSymbol symbol) with bySymbol := g.bySymbol.insert symbol id })

/-- Set where the code of a symbol's function is; the flag says whether the symbol is known. -/
def bindCode (g : Definitions) (symbol : Symbol) (code : CodeRange) :
    Except TableError (Bool × Definitions) :=
  match g.idBySymbol? symbol with
  | none => .ok (false, g)
  | some id => (g.functionAt id).map fun f =>
      (true, g.put id (.function { f with code := some code }))

/-- Bind a symbol to the first parameter of that stamp; the flag says whether there is one. -/
def bindParameter (g : Definitions) (function param : Stamp) (symbol : Symbol) :
    Except TableError (Bool × Definitions) :=
  match g.idByStamp? function with
  | none => .ok (false, g)
  | some id => (g.functionAt id).map fun f =>
      if f.params.any (·.stamp == param) then
        let params :=
          updateFirst (·.stamp == param) (fun p => { p with symbol := some symbol }) f.params
        (true, g.put id (.function { f with params }))
      else
        (false, g)

def setRootScope (g : Definitions) (id scope : EntryId) : Except TableError Definitions :=
  (g.functionAt id).map fun f => g.put id (.function { f with rootScope := some scope })

end Definitions

end DebugInfo
