import DebugInfo.Proofs.Definitions.Cases
import DebugInfo.Proofs.IdSpace.Supply
import DebugInfo.Proofs.Locals.Cases
import DebugInfo.CompilationUnit.Globals

/-!
# Symbols of entries

A table keeps a symbol twice: its index leads from the symbol to an entry, and the entry carries
the symbol.  Both are written when the symbol is bound, and nothing else writes them, even where
an entry is put together again.  So they say what was bound last: the index to which id a symbol
was, and the entry which symbol was bound to it.  These are two views of one list of bindings, and
they agree if the bindings are one to one.
-/

namespace DebugInfo

/-- No symbol is bound to two ids and no id to two symbols. -/
structure OneToOne (bindings : List (EntryId × Symbol)) : Prop where
  id : ∀ id id' symbol, (id, symbol) ∈ bindings → (id', symbol) ∈ bindings → id = id'
  symbol : ∀ id symbol symbol', (id, symbol) ∈ bindings → (id, symbol') ∈ bindings →
    symbol = symbol'

/-- Fewer bindings are one to one if more of them are. -/
theorem OneToOne.of_cons {b : EntryId × Symbol} {bindings : List (EntryId × Symbol)}
    (h : OneToOne (b :: bindings)) : OneToOne bindings where
  id id id' symbol hm hm' :=
    h.id id id' symbol (List.mem_cons_of_mem b hm) (List.mem_cons_of_mem b hm')
  symbol id symbol symbol' hm hm' :=
    h.symbol id symbol symbol' (List.mem_cons_of_mem b hm) (List.mem_cons_of_mem b hm')

/-! ## Namings -/

/-- Where the symbols lead, and which symbol each entry carries. -/
@[ext] structure Naming where
  idOf? : Symbol → Option EntryId
  symbolOf? : EntryId → Option Symbol

namespace Naming

def empty : Naming where
  idOf? _ := none
  symbolOf? _ := none

def bind (n : Naming) (id : EntryId) (symbol : Symbol) : Naming where
  idOf? symbol' := if symbol = symbol' then some id else n.idOf? symbol'
  symbolOf? id' := if id = id' then some symbol else n.symbolOf? id'

/-- What bindings come to, the latest of which is the first. -/
def of : List (EntryId × Symbol) → Naming
  | [] => empty
  | (id, symbol) :: bindings => (of bindings).bind id symbol

variable {bindings : List (EntryId × Symbol)} {id : EntryId} {symbol : Symbol}

/-- If the bindings are one to one, then a symbol leads to the id that it is bound to. -/
theorem idOf?_of_eq_some_iff (h : OneToOne bindings) :
    (of bindings).idOf? symbol = some id ↔ (id, symbol) ∈ bindings := by
  induction bindings with
  | nil => simp [of, empty]
  | cons b bindings ih =>
    obtain ⟨id', symbol'⟩ := b
    simp only [of, bind, List.mem_cons, Prod.mk.injEq]
    split
    · next heq =>
      subst heq
      rw [Option.some.injEq]
      constructor
      · rintro rfl
        exact .inl ⟨rfl, rfl⟩
      · rintro (⟨rfl, -⟩ | hmem)
        · rfl
        · exact h.id id' id symbol' List.mem_cons_self (List.mem_cons_of_mem _ hmem)
    · next hne =>
      rw [ih h.of_cons]
      exact (or_iff_right fun heq => hne heq.2.symm).symm

/-- If the bindings are one to one, then an id has the symbol that is bound to it. -/
theorem symbolOf?_of_eq_some_iff (h : OneToOne bindings) :
    (of bindings).symbolOf? id = some symbol ↔ (id, symbol) ∈ bindings := by
  induction bindings with
  | nil => simp [of, empty]
  | cons b bindings ih =>
    obtain ⟨id', symbol'⟩ := b
    simp only [of, bind, List.mem_cons, Prod.mk.injEq]
    split
    · next heq =>
      subst heq
      rw [Option.some.injEq]
      constructor
      · rintro rfl
        exact .inl ⟨rfl, rfl⟩
      · rintro (⟨-, rfl⟩ | hmem)
        · rfl
        · exact h.symbol id' symbol' symbol List.mem_cons_self (List.mem_cons_of_mem _ hmem)
    · next hne =>
      rw [ih h.of_cons]
      exact (or_iff_right fun heq => hne heq.1.symm).symm

/-- Bindings that are one to one can be read in both directions. -/
theorem idOf?_of_iff_symbolOf? (h : OneToOne bindings) (id : EntryId) (symbol : Symbol) :
    (of bindings).idOf? symbol = some id ↔ (of bindings).symbolOf? id = some symbol :=
  (idOf?_of_eq_some_iff h).trans (symbolOf?_of_eq_some_iff h).symm

end Naming

/-- An entry comes in where the same symbol was carried, if any. -/
theorem bind_put_of_bind {α : Type} {get? : EntryId → Option α} {symbol? : α → Option Symbol}
    {id : EntryId} {a : α} (h : (get? id).bind symbol? = symbol? a) (id' : EntryId) :
    (if id = id' then some a else get? id').bind symbol? = (get? id').bind symbol? := by
  split
  · next heq =>
    subst heq
    exact h.symm
  · rfl

/-! ## Definitions -/

namespace Definitions

def naming (g : Definitions) : Naming where
  idOf? := g.idBySymbol?
  symbolOf? id := (g.get? id).bind (·.symbol)

variable {g g' : Definitions} {ids ids' : IdSupply} {id : EntryId} {d : Definition}

theorem naming_empty : (∅ : Definitions).naming = .empty := by
  apply Naming.ext
  · funext symbol
    exact idBySymbol?_empty symbol
  · funext id
    simp [naming, Naming.empty]

/-- An entry may be overwritten with one that has its symbol. -/
theorem naming_put_of_bind (h : (g.get? id).bind (·.symbol) = d.symbol) :
    (g.put id d).naming = g.naming := by
  apply Naming.ext
  · rfl
  · funext id'
    simp only [naming, get?_put]
    exact bind_put_of_bind h id'

theorem naming_put (hd : g.get? id = some d) {d' : Definition} (h : d'.symbol = d.symbol) :
    (g.put id d').naming = g.naming :=
  naming_put_of_bind (by rw [hd, Option.bind_some, h])

theorem naming_put_fresh (hcovers : ids.Covers g.entries.Has) (h : d.symbol = none) :
    (g.put ids.fresh.1 d).naming = g.naming := by
  have hnone : g.get? ids.fresh.1 = none := EntryMap.getElem?_fresh hcovers
  exact naming_put_of_bind (by rw [hnone, Option.bind_none, h])

/-- To write a symbol into an entry and its index binds it. -/
theorem naming_withSymbol (g : Definitions) (id : EntryId) (d : Definition) (symbol : Symbol) :
    ((g.put id (d.withSymbol symbol)).addSymbol symbol id).naming = g.naming.bind id symbol := by
  apply Naming.ext
  · funext symbol'
    exact idBySymbol?_addSymbol _ symbol symbol' id
  · funext id'
    simp only [naming, Naming.bind, get?_addSymbol, get?_put]
    split
    · rw [Option.bind_some, Definition.symbol_withSymbol]
    · rfl

section Operations

variable (hcovers : ids.Covers g.entries.Has)
include hcovers

/-- A variable is declared without a symbol, or keeps its own. -/
theorem naming_declareVariable {stamp : Stamp} {v : Variable} {defining : Bool}
    (hsymbol : v.symbol = none)
    (ho : g.declareVariable ids stamp v defining = .ok (id, ids', g')) : g'.naming = g.naming := by
  rcases declareVariable_cases ho with ⟨-, rfl, rfl, rfl⟩ | ⟨-, rfl, old, hold, rfl⟩
  · exact naming_put_fresh hcovers hsymbol
  · exact naming_put hold rfl

theorem naming_declarePrototype {s : Signature}
    (ho : g.declarePrototype ids s = .ok (id, ids', g')) : g'.naming = g.naming := by
  rcases declarePrototype_cases ho with ⟨-, rfl, rfl, rfl⟩ | ⟨-, rfl, -, rfl⟩
  · exact naming_put_fresh hcovers rfl
  · rfl

/-- A function that is defined again carries the symbol that it carried. -/
theorem naming_defineFunction {s : Signature} {params : List Parameter}
    (ho : g.defineFunction ids s params = .ok (id, ids', g')) : g'.naming = g.naming := by
  rcases defineFunction_cases ho with ⟨-, rfl, rfl, rfl⟩ | ⟨-, rfl, old, hold, rfl⟩
  · exact naming_put_fresh hcovers rfl
  · have hput : (g.put id (.function (redefined s params old))).naming = g.naming :=
      naming_put hold rfl
    exact hput

end Operations

theorem naming_bindCode {symbol : Symbol} {code : CodeRange} {b : Bool}
    (ho : g.bindCode symbol code = .ok (b, g')) : g'.naming = g.naming := by
  rcases bindCode_cases ho with rfl | ⟨id, f, hf, rfl⟩
  · rfl
  · exact naming_put hf rfl

theorem naming_bindParameter {function param : Stamp} {symbol : Symbol} {b : Bool}
    (ho : g.bindParameter function param symbol = .ok (b, g')) : g'.naming = g.naming := by
  rcases bindParameter_cases ho with rfl | ⟨id, f, hf, rfl⟩
  · rfl
  · exact naming_put hf rfl

end Definitions

/-! ## Locals -/

def Local.symbol : Local → Option Symbol
  | .variable v => v.symbol
  | .scope _ => none

namespace Locals

def naming (l : Locals) : Naming where
  idOf? := l.idBySymbol?
  symbolOf? id := (l.get? id).bind (·.symbol)

variable {l l' : Locals} {ids ids' : IdSupply} {id x : EntryId} {e : Local} {stamp function : Stamp}
  {block : Block} {symbol : Symbol}

theorem naming_empty : (∅ : Locals).naming = .empty := by
  apply Naming.ext
  · funext symbol
    exact idBySymbol?_empty symbol
  · funext id
    simp [naming, Naming.empty]

/-- Scopes carry no symbol. -/
theorem symbolOf?_naming_eq_some_iff :
    l.naming.symbolOf? id = some symbol ↔
      ∃ v, l.get? id = some (.variable v) ∧ v.symbol = some symbol := by
  rw [naming, Option.bind_eq_some_iff]
  constructor
  · rintro ⟨v | children, he, hsymbol⟩
    · exact ⟨v, he, hsymbol⟩
    · cases hsymbol
  · rintro ⟨v, he, hsymbol⟩
    exact ⟨.variable v, he, hsymbol⟩

theorem naming_put_of_bind (h : (l.get? id).bind (·.symbol) = e.symbol) :
    (l.put id e).naming = l.naming := by
  apply Naming.ext
  · rfl
  · funext id'
    simp only [naming, get?_put]
    exact bind_put_of_bind h id'

theorem naming_put_fresh (hcovers : ids.Covers l.entries.Has) (h : e.symbol = none) :
    (l.put ids.fresh.1 e).naming = l.naming := by
  have hnone : l.get? ids.fresh.1 = none := EntryMap.getElem?_fresh hcovers
  exact naming_put_of_bind (by rw [hnone, Option.bind_none, h])

/-- A local is declared without a symbol. -/
theorem naming_declare (hcovers : ids.Covers l.entries.Has) {v : LocalVariable}
    (hsymbol : v.symbol = none) (h : l.declare ids stamp v = (id, ids', l')) :
    l'.naming = l.naming := by
  rcases declare_cases h with ⟨-, rfl, rfl⟩ | ⟨-, rfl, rfl, rfl⟩
  · rfl
  · exact naming_put_fresh hcovers hsymbol

theorem naming_enter (hcovers : ids.Covers l.entries.Has)
    (h : l.enter ids function block = (x, ids', l')) : l'.naming = l.naming := by
  rcases enter_cases h with ⟨-, rfl, rfl⟩ | ⟨-, rfl, rfl, rfl⟩
  · rfl
  · exact naming_put_fresh hcovers rfl

theorem naming_putScope {children : List EntryId} (h : l.get? id = some (.scope children))
    (children' : List EntryId) : (l.put id (.scope children')).naming = l.naming :=
  naming_put_of_bind (by rw [h]; rfl)

/-- A variable keeps its symbol when it goes into a scope. -/
theorem naming_attach {b : Bool} (h : l.attach function stamp block = .ok (b, l')) :
    l'.naming = l.naming := by
  rcases attach_cases h with rfl | ⟨var, scope, children, -, -, hchildren, rfl⟩
  · rfl
  · exact naming_putScope hchildren _

theorem naming_linkSymbol (l : Locals) (function : Stamp) (symbol : Symbol) :
    (l.linkSymbol function symbol).2.naming = l.naming := by
  obtain ⟨m, heq, -⟩ := linkSymbol_eq l function symbol
  rw [heq]
  rfl

/-- To link the symbol of a function changes no symbol of a local. -/
theorem naming_linkSymbolAll (stamps : List Stamp) (symbol : Symbol) (l : Locals) :
    (CompilationUnit.linkSymbolAll stamps symbol l).naming = l.naming := by
  induction stamps generalizing l with
  | nil => rfl
  | cons stamp stamps ih => exact (ih _).trans (naming_linkSymbol l stamp symbol)

/-- To bind a symbol to a local binds it. -/
theorem naming_bindSymbol (h : l.bindSymbol stamp symbol = some (id, l')) :
    l'.naming = l.naming.bind id symbol := by
  obtain ⟨v, -, -, rfl⟩ := bindSymbol_cases h
  apply Naming.ext
  · funext symbol'
    exact idBySymbol?_addSymbol _ symbol symbol' id
  · funext id'
    have hget : ((l.put id (.variable { v with symbol := some symbol })).addSymbol symbol id).get? =
        (l.put id (.variable { v with symbol := some symbol })).get? := rfl
    simp only [naming, Naming.bind, hget, get?_put]
    split <;> rfl

end Locals

end DebugInfo
