import Mathlib.Logic.Relation
import DebugInfo.CompilationUnit.Globals
import DebugInfo.Proofs.IdSpace.Supply
import DebugInfo.Proofs.Locals.Cases
import DebugInfo.Proofs.Persistence.Entries

/-!
# Changes of locals

Each operation on the table is a chain of changes of five kinds.  The indices by stamp are only added
to; those by symbol lead to what was bound last, and nothing is said of them.
-/

namespace DebugInfo

namespace Locals

inductive Change : IdSupply × Locals → IdSupply × Locals → Prop where
  | addVariable {ids : IdSupply} {l : Locals} {stamp : Stamp} (v : LocalVariable)
      (h : l.idByStamp? stamp = none) :
      Change (ids, l)
        (ids.fresh.2, (l.put ids.fresh.1 (.variable v)).addStamp stamp ids.fresh.1)
  | addScope {ids : IdSupply} {l : Locals} {function : Stamp} {block : Block}
      (h : l.scopeByStamp? function block = none) :
      Change (ids, l) (ids.fresh.2, l.addScope function block ids.fresh.1)
  | put {ids : IdSupply} {l : Locals} {id : EntryId} {e e' : Local} (he : l.get? id = some e)
      (h : e.Evolves e') : Change (ids, l) (ids, l.put id e')
  | addSymbol (ids : IdSupply) (l : Locals) (symbol : Symbol) (id : EntryId) :
      Change (ids, l) (ids, l.addSymbol symbol id)
  | linkSymbol (ids : IdSupply) (l : Locals) (function : Stamp) (symbol : Symbol) :
      Change (ids, l) (ids, (l.linkSymbol function symbol).2)

abbrev Changes : IdSupply × Locals → IdSupply × Locals → Prop := Relation.ReflTransGen Change

/-! ## Operations -/

section Operations

variable {ids ids' : IdSupply} {l l' : Locals} {id x : EntryId} {stamp function : Stamp}
  {block : Block} {symbol : Symbol}

theorem changes_declare {v : LocalVariable} (h : l.declare ids stamp v = (id, ids', l')) :
    Changes (ids, l) (ids', l') := by
  rcases declare_cases h with ⟨-, rfl, rfl⟩ | ⟨hs, rfl, rfl, rfl⟩
  · exact .refl
  · exact .single (.addVariable v hs)

theorem changes_enter (h : l.enter ids function block = (x, ids', l')) :
    Changes (ids, l) (ids', l') := by
  rcases enter_cases h with ⟨-, rfl, rfl⟩ | ⟨hs, rfl, rfl, rfl⟩
  · exact .refl
  · exact .single (.addScope hs)

theorem change_addChild {children : List EntryId} (h : l.get? id = some (.scope children))
    (ids : IdSupply) (child : EntryId) :
    Change (ids, l) (ids, l.put id (.scope (children ++ [child]))) :=
  .put h (.addChild children child)

theorem changes_attach {b : Bool} (h : l.attach function stamp block = .ok (b, l'))
    (ids : IdSupply) : Changes (ids, l) (ids, l') := by
  rcases attach_cases h with rfl | ⟨var, scope, children, -, -, hchildren, rfl⟩
  · exact .refl
  · exact .single (change_addChild hchildren ids var)

theorem changes_bindSymbol (h : l.bindSymbol stamp symbol = some (id, l')) (ids : IdSupply) :
    Changes (ids, l) (ids, l') := by
  obtain ⟨v, -, hv, rfl⟩ := bindSymbol_cases h
  exact .tail (.single (.put hv (.variable v (some symbol)))) (.addSymbol ids _ symbol id)

theorem changes_linkSymbolAll (ids : IdSupply) (l : Locals) (stamps : List Stamp)
    (symbol : Symbol) : Changes (ids, l) (ids, CompilationUnit.linkSymbolAll stamps symbol l) := by
  induction stamps generalizing l with
  | nil => exact .refl
  | cons stamp stamps ih => exact .head (.linkSymbol ids l stamp symbol) (ih _)

end Operations

/-! ## What changes keep -/

/-- Entries become only what they may, and every stamp leads where it led. -/
structure Evolves (l l' : Locals) : Prop where
  entries : l.entries.Evolves Local.Evolves l'.entries
  stamps : ∀ stamp id, l.idByStamp? stamp = some id → l'.idByStamp? stamp = some id
  scopes : ∀ function block id, l.scopeByStamp? function block = some id →
    l'.scopeByStamp? function block = some id

theorem Evolves.refl (l : Locals) : Evolves l l :=
  ⟨.refl Local.Evolves.refl _, fun _ _ h => h, fun _ _ _ h => h⟩

theorem Evolves.trans {l₁ l₂ l₃ : Locals} (h : Evolves l₁ l₂) (h' : Evolves l₂ l₃) :
    Evolves l₁ l₃ where
  entries := h.entries.trans Local.Evolves.trans h'.entries
  stamps stamp id hs := h'.stamps stamp id (h.stamps stamp id hs)
  scopes function block id hs := h'.scopes function block id (h.scopes function block id hs)

namespace Change

variable {s s' : IdSupply × Locals}

theorem draws (h : Change s s') : Draws s.1 s.2.entries.Has s'.1 s'.2.entries.Has := by
  cases h with
  | @addVariable ids l _ v h => exact l.entries.draws_insert_fresh ids (.variable v)
  | @addScope ids l _ _ h => exact l.entries.draws_insert_fresh ids (.scope [])
  | put he h => exact EntryMap.draws_insert he _ _
  | addSymbol => exact .nothing fun _ => .rfl
  | linkSymbol ids l function symbol =>
    obtain ⟨m, heq, -⟩ := linkSymbol_eq l function symbol
    rw [heq]
    exact .nothing fun _ => .rfl

theorem evolves (h : Change s s') (hcovers : s.1.Covers s.2.entries.Has) :
    Evolves s.2 s'.2 := by
  cases h with
  | addVariable v h =>
    refine ⟨EntryMap.evolves_insert_fresh .refl hcovers _, fun stamp' id hs => ?_,
      fun _ _ _ hs => hs⟩
    rw [idByStamp?_addStamp, if_neg]
    · exact hs
    · rintro rfl
      rw [h] at hs
      cases hs
  | addScope h =>
    refine ⟨EntryMap.evolves_insert_fresh .refl hcovers _, fun _ _ hs => hs,
      fun function' block' id hs => ?_⟩
    rw [scopeByStamp?_addScope, if_neg, hs]
    rintro ⟨rfl, rfl⟩
    rw [h] at hs
    cases hs
  | put he h => exact ⟨EntryMap.evolves_insert .refl he h, fun _ _ hs => hs, fun _ _ _ hs => hs⟩
  | addSymbol => exact ⟨.refl .refl _, fun _ _ hs => hs, fun _ _ _ hs => hs⟩
  | linkSymbol ids l function symbol =>
    obtain ⟨m, heq, -⟩ := linkSymbol_eq l function symbol
    rw [heq]
    exact ⟨.refl .refl _, fun _ _ hs => hs, fun _ _ _ hs => hs⟩

end Change

end Locals

end DebugInfo
