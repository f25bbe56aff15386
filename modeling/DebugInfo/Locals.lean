import DebugInfo.Error
import DebugInfo.Location

/-!
# Locals

The variables declared in blocks, and the scopes of the blocks of each function.  The frontend
reaches a scope by the stamp of its function, the backend by the symbol.  Once a symbol is known
for a stamp, every scope entered under the stamp is reached by the symbol as well, whether it is
entered before or after.
-/

namespace DebugInfo

structure LocalVariable where
  name : Name
  symbol : Option Symbol := none
  loc : SourceLoc
  type : EntryId
  isStatic : Bool
deriving DecidableEq, Repr

inductive Local where
  | variable (v : LocalVariable)
  /-- The variables and scopes in it, in the order in which they were attached. -/
  | scope (children : List EntryId)
deriving DecidableEq, Repr

def Local.kindName : Local → String
  | .variable _ => "local variable"
  | .scope _ => "scope"

structure Locals where
  entries : EntryMap Local
  variablesByStamp : Std.ExtTreeMap Stamp EntryId
  variablesBySymbol : Std.ExtTreeMap Symbol EntryId
  scopesByStamp : Std.ExtTreeMap (Stamp × Block) EntryId
  scopesBySymbol : Std.ExtTreeMap (Symbol × Block) EntryId
  /-- The blocks entered under each stamp, in order. -/
  blocks : Std.ExtTreeMap Stamp (List Block)
  /-- The symbols of the stamps whose scopes are reached by symbol. -/
  symbols : Std.ExtTreeMap Stamp Symbol

namespace Locals

def empty : Locals where
  entries := ∅
  variablesByStamp := ∅
  variablesBySymbol := ∅
  scopesByStamp := ∅
  scopesBySymbol := ∅
  blocks := ∅
  symbols := ∅

instance : EmptyCollection Locals := ⟨empty⟩

def clear (l : Locals) : Locals :=
  { l with
    entries := ∅
    variablesByStamp := ∅
    variablesBySymbol := ∅
    scopesByStamp := ∅
    scopesBySymbol := ∅
    blocks := ∅
    symbols := ∅ }

@[simp] theorem clear_eq_empty (l : Locals) : l.clear = ∅ := rfl

def get? (l : Locals) (id : EntryId) : Option Local := l.entries[id]?

def size (l : Locals) : Nat := l.entries.size

def isEmpty (l : Locals) : Bool := l.entries.isEmpty

def toList (l : Locals) : List (EntryId × Local) := l.entries.toList

def idByStamp? (l : Locals) (stamp : Stamp) : Option EntryId := l.variablesByStamp[stamp]?

def idBySymbol? (l : Locals) (symbol : Symbol) : Option EntryId := l.variablesBySymbol[symbol]?

def scopeByStamp? (l : Locals) (function : Stamp) (block : Block) : Option EntryId :=
  l.scopesByStamp[(function, block)]?

def scopeBySymbol? (l : Locals) (function : Symbol) (block : Block) : Option EntryId :=
  l.scopesBySymbol[(function, block)]?

def blocksOf (l : Locals) (function : Stamp) : List Block := (l.blocks[function]?).getD []

/-- The children of the scope that an id leads to. -/
def childrenAt (l : Locals) (id : EntryId) : Except TableError (List EntryId) :=
  match l.get? id with
  | some (.scope children) => .ok children
  | some e => .error (.unexpectedVariant .locals id "scope" e.kindName)
  | none => .error (.unknownId .locals id)

def put (l : Locals) (id : EntryId) (e : Local) : Locals :=
  { l with entries := l.entries.insert id e }

def addScopeStamp (l : Locals) (function : Stamp) (block : Block) (id : EntryId) : Locals :=
  { l with scopesByStamp := l.scopesByStamp.insert (function, block) id }

def addScopeSymbol (l : Locals) (function : Symbol) (block : Block) (id : EntryId) : Locals :=
  { l with scopesBySymbol := l.scopesBySymbol.insert (function, block) id }

/-! ## Variables and scopes -/

/-- Record a variable; one whose stamp is known already stays as it is. -/
def declare (l : Locals) (ids : IdSupply) (stamp : Stamp) (v : LocalVariable) :
    EntryId × IdSupply × Locals :=
  match l.idByStamp? stamp with
  | some id => (id, ids, l)
  | none =>
      let (id, ids) := ids.fresh
      (id, ids, { l.put id (.variable v) with
        variablesByStamp := l.variablesByStamp.insert stamp id })

/-- Add a scope without children for a block that has not been entered. -/
def addScope (l : Locals) (function : Stamp) (block : Block) (id : EntryId) : Locals :=
  { l.put id (.scope []) with
    scopesByStamp := l.scopesByStamp.insert (function, block) id
    blocks := l.blocks.insert function (l.blocksOf function ++ [block])
    scopesBySymbol :=
      match l.symbols[function]? with
      | some symbol => l.scopesBySymbol.insert (symbol, block) id
      | none => l.scopesBySymbol }

/-- The scope of a block, which is added when the block is entered for the first time. -/
def enter (l : Locals) (ids : IdSupply) (function : Stamp) (block : Block) :
    EntryId × IdSupply × Locals :=
  match l.scopeByStamp? function block with
  | some id => (id, ids, l)
  | none =>
      let (id, ids) := ids.fresh
      (id, ids, l.addScope function block id)

/-- Enter a block inside another one.  Nothing happens if the outer block was never entered; a scope
that is a child of the outer one already does not become one again. -/
def enterChild (l : Locals) (ids : IdSupply) (function : Stamp) (parent block : Block) :
    Except TableError (Option EntryId × IdSupply × Locals) :=
  match l.scopeByStamp? function parent with
  | none => .ok (none, ids, l)
  | some parentId => do
      let _ ← l.childrenAt parentId
      let (id, ids, l) := l.enter ids function block
      let children ← l.childrenAt parentId
      return (some id, ids,
        if children.contains id then l else l.put parentId (.scope (children ++ [id])))

/-- Make a variable a child of a scope; the flag says whether both are known. -/
def attach (l : Locals) (function stamp : Stamp) (block : Block) :
    Except TableError (Bool × Locals) :=
  match l.idByStamp? stamp, l.scopeByStamp? function block with
  | some variableId, some scopeId => (l.childrenAt scopeId).map fun children =>
      (true, l.put scopeId (.scope (children ++ [variableId])))
  | _, _ => .ok (false, l)

/-! ## Symbols -/

/-- Let the symbol lead to the scope of a block that was entered under the stamp. -/
def linkBlock (l : Locals) (function : Stamp) (symbol : Symbol) (block : Block) : Locals :=
  match l.scopeByStamp? function block with
  | some id => { l with scopesBySymbol := l.scopesBySymbol.insert (symbol, block) id }
  | none => l

/-- Let the symbol lead to every scope entered under the stamp, now and later.  The count is that
of the scopes entered so far. -/
def linkSymbol (l : Locals) (function : Stamp) (symbol : Symbol) : Nat × Locals :=
  let l := { l with symbols := l.symbols.insert function symbol }
  ((l.blocksOf function).length,
    (l.blocksOf function).foldl (fun l block => l.linkBlock function symbol block) l)

/-- Bind a symbol to the variable of a stamp, if there is one. -/
def bindSymbol (l : Locals) (stamp : Stamp) (symbol : Symbol) : Option (EntryId × Locals) :=
  match l.idByStamp? stamp with
  | none => none
  | some id =>
    match l.get? id with
    | some (.variable v) =>
        some (id, { l.put id (.variable { v with symbol := some symbol }) with
          variablesBySymbol := l.variablesBySymbol.insert symbol id })
    | _ => none

end Locals

end DebugInfo
