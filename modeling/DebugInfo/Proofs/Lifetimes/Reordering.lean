import DebugInfo.Proofs.Lifetimes.Refinement
import Mathlib.Data.List.Basic

/-!
# Runs of the tracker

A run is a run of every machine by itself (`foldl_apply`): the machine of a scope or variable gets
what is meant for it, and nothing else.  What can be seen of a tracker follows from the states of
the machines.

So between two ends of functions the order of events matters only for events on the same scope or
variable.
-/

namespace DebugInfo.Lifetimes

/-! ## Runs -/

section Runs

variable {l : Lifetimes} (h : Consistent l) (events : List Event)
include h

theorem consistent_foldl_apply : Consistent (events.foldl apply l) := by
  induction events generalizing l with
  | nil => exact h
  | cons e events ih => exact ih (h.apply e)

/-- The ranges of a scope are made by the events that it takes part in. -/
theorem spansOf_foldl_apply (s : EntryId) :
    (events.foldl apply l).spansOf s =
      (events.filterMap (·.toScope? s)).foldl ScopeEvent.apply (l.spansOf s) := by
  induction events generalizing l with
  | nil => rfl
  | cons e events ih =>
    rw [List.foldl_cons, ih (h.apply e), spansOf_apply h]
    cases he : e.toScope? s with
    | none => rw [List.filterMap_cons_none he, Option.elim_none]
    | some e' => rw [List.filterMap_cons_some he, Option.elim_some, List.foldl_cons]

theorem storage?_foldl_apply (v : EntryId) :
    (events.foldl apply l).storage? v =
      (events.filterMap (·.toVariable? v)).foldl VariableEvent.apply (l.storage? v) := by
  induction events generalizing l with
  | nil => rfl
  | cons e events ih =>
    rw [List.foldl_cons, ih (h.apply e), storage?_apply h]
    cases he : e.toVariable? v with
    | none => rw [List.filterMap_cons_none he, Option.elim_none]
    | some e' => rw [List.filterMap_cons_some he, Option.elim_some, List.foldl_cons]

end Runs

/-- The lists are right after any events. -/
theorem consistent_run (events : List Event) : Consistent (run events) :=
  consistent_foldl_apply consistent_empty events

/-- The tracker has for every scope the history of that scope. -/
theorem spansOf_run (events : List Event) (s : EntryId) :
    (run events).spansOf s = scopeHistory s events := by
  rw [run, spansOf_foldl_apply consistent_empty, scopeHistory]
  simp [empty, spansOf]

theorem storage?_run (events : List Event) (v : EntryId) :
    (run events).storage? v = variableHistory v events := by
  rw [run, storage?_foldl_apply consistent_empty, variableHistory]
  simp [empty, storage?]

/-! ## What can be seen of a tracker -/

/-- Both tables in full, and whether anything is open. -/
def observe (l : Lifetimes) : EntryMap (List Span) × EntryMap Storage × Bool :=
  (l.spans, l.storages, l.anyOpen)

namespace Consistent

variable {l l' : Lifetimes} (h : Consistent l) (h' : Consistent l')

include h in
/-- Whether anything is open can be read off the histories. -/
theorem anyOpen_iff :
    l.anyOpen = true ↔ (∃ s, NewestOpen (l.spansOf s)) ∨
      ∃ v st, l.storage? v = some st ∧ RangeOpen st := by
  simp only [← h.mem_openScopes, ← h.mem_openVariables, anyOpen, Bool.or_eq_true,
    Bool.not_eq_true', List.isEmpty_eq_false_iff_exists_mem]

include h h' in
/-- Two consistent trackers with the same ranges for every scope have the same table of them. -/
theorem spans_eq (hs : ∀ s, l.spansOf s = l'.spansOf s) : l.spans = l'.spans := by
  refine Std.ExtTreeMap.ext_getElem? fun s => ?_
  have heq := hs s
  have hne := h.ne_nil s
  have hne' := h'.ne_nil s
  unfold spansOf at heq
  cases hl : l.spans[s]? <;> cases hl' : l'.spans[s]? <;> simp_all

include h h' in
/-- The histories determine all that can be seen. -/
theorem observe_eq (hs : ∀ s, l.spansOf s = l'.spansOf s)
    (hv : ∀ v, l.storage? v = l'.storage? v) : l.observe = l'.observe := by
  have hspans := h.spans_eq h' hs
  have hstorages : l.storages = l'.storages := Std.ExtTreeMap.ext_getElem? hv
  have hopen : l.anyOpen = l'.anyOpen := by
    rw [Bool.eq_iff_iff, h.anyOpen_iff, h'.anyOpen_iff]
    simp only [hs, hv]
  rw [observe, observe, hspans, hstorages, hopen]

end Consistent

/-! ## Reordering -/

/-- What an event is about, if it is about one thing. -/
inductive Entity where
  | scope (id : EntryId)
  | var (id : EntryId)
deriving DecidableEq, Repr

def Event.entity? : Event → Option Entity
  | .openScope scope _ | .closeScope scope _ => some (.scope scope)
  | .startRange var _ _ | .endRange var _ | .setFixed var _ _ => some (.var var)
  | .endFunction _ | .clear => none

/-- The same events, where no function ends, with those on each scope or variable in the same
order. -/
structure Reordered (block block' : List Event) : Prop where
  named : ∀ e ∈ block, e.entity? ≠ none
  named' : ∀ e ∈ block', e.entity? ≠ none
  filter_eq : ∀ x, block.filter (·.entity? = some x) = block'.filter (·.entity? = some x)

/-- Two events of different entities may change places. -/
theorem Reordered.swap {e e' : Event} (he : e.entity? ≠ none) (he' : e'.entity? ≠ none)
    (h : e.entity? ≠ e'.entity?) : Reordered [e, e'] [e', e] where
  named := by simp [he, he']
  named' := by simp [he, he']
  filter_eq x := by
    by_cases hx : e.entity? = some x
    · have hx' : e'.entity? ≠ some x := fun hx' => h (hx.trans hx'.symm)
      simp [hx, hx']
    · by_cases hx' : e'.entity? = some x <;> simp [hx, hx']

/-- An event on something else means nothing to a scope. -/
theorem Event.toScope?_eq_none {e : Event} {s : EntryId} (he : e.entity? ≠ none)
    (hs : e.entity? ≠ some (.scope s)) : e.toScope? s = none := by
  cases e with
  | openScope scope addr | closeScope scope addr =>
    have hne : scope ≠ s := by
      rintro rfl
      exact hs rfl
    exact if_neg hne
  | endFunction addr => exact absurd rfl he
  | clear => exact absurd rfl he
  | _ => rfl

/-- An event on something else means nothing to a variable. -/
theorem Event.toVariable?_eq_none {e : Event} {v : EntryId} (he : e.entity? ≠ none)
    (hv : e.entity? ≠ some (.var v)) : e.toVariable? v = none := by
  cases e with
  | startRange var addr place | endRange var addr | setFixed var offset place =>
    have hne : var ≠ v := by
      rintro rfl
      exact hv rfl
    exact if_neg hne
  | endFunction addr => exact absurd rfl he
  | clear => exact absurd rfl he
  | _ => rfl

/-- What means something only if it is about `x` is left when the events on `x` are picked. -/
theorem filterMap_eq_filterMap_filter {β : Type} {f : Event → Option β} {x : Entity}
    {block : List Event} (hf : ∀ e ∈ block, e.entity? ≠ some x → f e = none) :
    block.filterMap f = (block.filter (·.entity? = some x)).filterMap f := by
  rw [List.filterMap_filter]
  refine List.filterMap_congr fun e he => ?_
  by_cases hx : e.entity? = some x
  · simp [hx]
  · simp [hx, hf e he hx]

namespace Reordered

variable {block block' : List Event} (h : Reordered block block')
include h

/-- A scope takes part in the same events, in the same order. -/
theorem filterMap_toScope? (s : EntryId) :
    block.filterMap (·.toScope? s) = block'.filterMap (·.toScope? s) := by
  rw [filterMap_eq_filterMap_filter fun e he => Event.toScope?_eq_none (h.named e he),
    filterMap_eq_filterMap_filter fun e he => Event.toScope?_eq_none (h.named' e he),
    h.filter_eq]

theorem filterMap_toVariable? (v : EntryId) :
    block.filterMap (·.toVariable? v) = block'.filterMap (·.toVariable? v) := by
  rw [filterMap_eq_filterMap_filter fun e he => Event.toVariable?_eq_none (h.named e he),
    filterMap_eq_filterMap_filter fun e he => Event.toVariable?_eq_none (h.named' e he),
    h.filter_eq]

/-- The history of a scope does not change when a block is reordered. -/
theorem scopeHistory_eq (pre post : List Event) (s : EntryId) :
    scopeHistory s (pre ++ block ++ post) = scopeHistory s (pre ++ block' ++ post) := by
  simp only [scopeHistory, List.filterMap_append, h.filterMap_toScope? s]

theorem variableHistory_eq (pre post : List Event) (v : EntryId) :
    variableHistory v (pre ++ block ++ post) = variableHistory v (pre ++ block' ++ post) := by
  simp only [variableHistory, List.filterMap_append, h.filterMap_toVariable? v]

end Reordered

/-- The tracker is a product of machines: after any events, every scope and variable is where its
own machine is.  So events on different scopes and variables can change places unless a function
ends between them, and nothing that follows shows it. -/
theorem run_refines_histories :
    (∀ events, (∀ s, (run events).spansOf s = scopeHistory s events) ∧
      ∀ v, (run events).storage? v = variableHistory v events) ∧
    ∀ pre block block' post, Reordered block block' →
      (run (pre ++ block ++ post)).observe = (run (pre ++ block' ++ post)).observe := by
  refine ⟨fun events => ⟨spansOf_run events, storage?_run events⟩, ?_⟩
  intro pre block block' post h
  have hl := consistent_run (pre ++ block ++ post)
  have hl' := consistent_run (pre ++ block' ++ post)
  refine hl.observe_eq hl' ?_ ?_
  · intro s
    rw [spansOf_run, spansOf_run, h.scopeHistory_eq]
  · intro v
    rw [storage?_run, storage?_run, h.variableHistory_eq]

/-- A scope may be closed before or after the variable of the same id moves. -/
theorem run_refines_histories_swap :
    let close : Event := .closeScope ⟨1⟩ ⟨8⟩
    let move : Event := .startRange ⟨1⟩ ⟨8⟩ (.register 3)
    Reordered [close, move] [move, close] ∧
      (run ([.openScope ⟨1⟩ ⟨4⟩] ++ [close, move] ++ [.endFunction ⟨9⟩])).observe =
        (run ([.openScope ⟨1⟩ ⟨4⟩] ++ [move, close] ++ [.endFunction ⟨9⟩])).observe := by
  intro close move
  have h : Reordered [close, move] [move, close] := .swap (by decide) (by decide) (by decide)
  exact ⟨h, run_refines_histories.2 _ _ _ _ h⟩

end DebugInfo.Lifetimes
