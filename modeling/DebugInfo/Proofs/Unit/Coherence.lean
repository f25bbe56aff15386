import DebugInfo.Proofs.Interning.Kinds
import DebugInfo.Proofs.Links.Locals
import DebugInfo.Proofs.Persistence.Run
import DebugInfo.Proofs.Scopes.Quiet

/-!
# What operations find

Operations look up an entry by a stamp, a symbol, a block or a type, and then expect it to be there,
and to be a scope or a struct if it was found as one.  In a unit that was filled by operations it is
so, in whatever order they came and whether they failed or not.
-/

namespace DebugInfo

namespace Locals

/-- What is found as the scope of a block is a scope. -/
def FindsScopes (l : Locals) : Prop :=
  ∀ function block x, l.scopeByStamp? function block = some x → l.IsScope x

theorem findsScopes_empty : FindsScopes ∅ := by
  intro function block x hx
  rw [scopeByStamp?_empty] at hx
  cases hx

theorem Evolves.isScope {l l' : Locals} (h : Evolves l l') {x : EntryId} (hx : l.IsScope x) :
    l'.IsScope x := by
  obtain ⟨children, hx⟩ := hx
  obtain ⟨e, he, hevolves⟩ := h.entries x _ hx
  cases hevolves
  exact ⟨_, he⟩

/-- What is found for a block is still a scope after one change. -/
theorem Change.findsScopes {s s' : IdSupply × Locals} (h : Change s s')
    (hcovers : s.1.Covers s.2.entries.Has) (hs : s.2.FindsScopes) : s'.2.FindsScopes := by
  intro function block x hx
  have hkept (hx : s.2.scopeByStamp? function block = some x) : s'.2.IsScope x :=
    (h.evolves hcovers).isScope (hs function block x hx)
  cases h with
  | addScope =>
    rw [scopeByStamp?_addScope] at hx
    split at hx
    · cases hx
      exact ⟨[], by rw [get?_addScope, if_pos rfl]⟩
    · exact hkept hx
  | linkSymbol =>
    rw [scopeByStamp?_linkSymbol] at hx
    exact hkept hx
  | addVariable | put | addSymbol => exact hkept hx

end Locals

namespace CompilationUnit

open Definitions (Grounded)

/-- What each step keeps. -/
structure Steady (u : CompilationUnit) : Prop where
  orderly : Orderly u
  scopes : u.locals.FindsScopes
  bases : TypeTable.FindsBases (u.ids, u.types)

structure Coherent (u : CompilationUnit) : Prop extends Steady u where
  grounded : Grounded u.ids u.definitions

variable {u : CompilationUnit}

/-! ## Definitions -/

theorem grounded_of_isEmpty (h : IsEmpty u) : Grounded u.ids u.definitions := by
  rw [h.definitions]
  exact Definitions.grounded_empty u.ids

/-- The definitions stay grounded when a symbol is bound. -/
theorem grounded_bindSymbol (h : Grounded u.ids u.definitions) (stamp : Stamp) (symbol : Symbol) :
    Grounded (bindSymbol stamp symbol u).2.ids (bindSymbol stamp symbol u).2.definitions := by
  rcases u.bindSymbol_cases stamp symbol with hrun | ⟨id, d, -, hd, hrun⟩
  · rw [hrun]
    exact h
  · rw [hrun]
    exact h.withSymbol hd symbol

theorem grounded_enterFunction (h : Grounded u.ids u.definitions) (function : Stamp)
    (block : Block) :
    Grounded (enterFunction function block u).2.ids
      (enterFunction function block u).2.definitions := by
  rcases u.enterFunction_cases function block with ⟨answer, hrun, -⟩ |
    ⟨id, f, x, ids, l, -, hf, henter, hrun⟩
  · rw [hrun]
    exact h
  · rw [hrun]
    have hput : Grounded u.ids (u.definitions.put id (.function { f with rootScope := some x })) :=
      h.put hf rfl
    exact hput.mono (Locals.allocated_enter henter)

theorem grounded_enterChild (h : Grounded u.ids u.definitions) (function : Stamp)
    (parent block : Block) :
    Grounded (enterChild function parent block u).2.ids
      (enterChild function parent block u).2.definitions := by
  rcases u.enterChild_cases function parent block with ⟨answer, hrun, -⟩ |
    ⟨parentId, x, children, ids, l, l', -, henter, -, -, hrun⟩
  · rw [hrun]
    exact h
  · rw [hrun]
    exact h.mono (Locals.allocated_enter henter)

variable {σ : Type}

/-- The definitions stay grounded with every operation. -/
theorem grounded_apply (h : Grounded u.ids u.definitions) (op : Operation σ) :
    Grounded (u.apply op).2.ids (u.apply op).2.definitions := by
  cases hop : op.isQuiet with
  | true => exact ((perform_isQuiet u hop).apply (.refl h)).grounded
  | false =>
    cases op with
    | restart name => exact grounded_of_isEmpty (u.isEmpty_restart name)
    | bindSymbol stamp symbol => exact grounded_bindSymbol h stamp symbol
    | enterFunction function block =>
      rw [apply, perform, answer_apply]
      exact grounded_enterFunction h function block
    | enterChild function parent block =>
      rw [apply, perform, answer_apply]
      exact grounded_enterChild h function parent block
    | _ => cases hop

/-! ## Runs -/

theorem steady_of_isEmpty (h : IsEmpty u) : Steady u := by
  refine ⟨orderly_of_isEmpty h, ?_, ?_⟩
  · rw [h.locals]
    exact Locals.findsScopes_empty
  · rw [h.types]
    exact TypeTable.findsBases_empty u.ids _

/-- A steady unit stays so with one step. -/
theorem Steady.of_step {u' : CompilationUnit} (h : Steady u) (hstep : Step u u') : Steady u' := by
  have horderly := h.orderly.of_step hstep
  cases hstep with
  | types a hperform =>
    refine ⟨horderly, h.scopes, ?_⟩
    rw [← hperform]
    exact h.bases.perform a
  | definitions hchange => exact ⟨horderly, h.scopes, h.bases.mono hchange.draws.allocated⟩
  | locals hchange =>
    have hscopes := hchange.findsScopes (h.orderly.space.allocated .locals) h.scopes
    exact ⟨horderly, hscopes, h.bases.mono hchange.draws.allocated⟩
  | output => exact ⟨horderly, h.scopes, h.bases⟩

theorem coherent_of_isEmpty (h : IsEmpty u) : Coherent u :=
  ⟨steady_of_isEmpty h, grounded_of_isEmpty h⟩

/-- A coherent unit stays so with every operation. -/
theorem Coherent.apply (h : Coherent u) (op : Operation σ) : Coherent (u.apply op).2 :=
  ⟨apply_induction steady_of_isEmpty Steady.of_step h.toSteady op, grounded_apply h.grounded op⟩

theorem Coherent.runFrom (h : Coherent u) (ops : List (Operation σ)) :
    Coherent (u.runFrom ops) := by
  induction ops generalizing u with
  | nil => exact h
  | cons op ops ih => exact ih (h.apply op)

/-- Every unit that a run leads to is coherent. -/
theorem run_coherent (config : Config) (ops : List (Operation σ)) : Coherent (run config ops) :=
  (coherent_of_isEmpty (isEmpty_new config)).runFrom ops

end CompilationUnit

end DebugInfo
