import DebugInfo.Proofs.Lifetimes.Refinement

/-!
# What has a history

An event adds a history to no entry but the one that it is about.
-/

namespace DebugInfo.Lifetimes

/-- The scope that an event is about. -/
def Event.scopeId? : Event → Option EntryId
  | .openScope scope _ | .closeScope scope _ => some scope
  | _ => none

/-- The variable that an event is about. -/
def Event.variableId? : Event → Option EntryId
  | .startRange var _ _ | .endRange var _ | .setFixed var _ _ => some var
  | _ => none

variable {β : Type} {m : EntryMap β} {k x : EntryId} {b : β}

theorem exists_of_getElem?_modify {f : β → β} (h : (m.modify k f)[x]? = some b) :
    ∃ a, m[x]? = some a := by
  rw [Std.ExtTreeMap.getElem?_modify] at h
  split at h
  · next heq =>
    obtain ⟨a, ha, -⟩ := Option.map_eq_some_iff.1 h
    exact ⟨a, Std.LawfulEqOrd.eq_of_compare heq ▸ ha⟩
  · exact ⟨b, h⟩

theorem exists_of_getElem?_insert {c : β} (h : (m.insert k c)[x]? = some b) :
    (∃ a, m[x]? = some a) ∨ k = x := by
  rw [Std.ExtTreeMap.getElem?_insert] at h
  split at h
  · next heq => exact .inr (Std.LawfulEqOrd.eq_of_compare heq)
  · exact .inl ⟨b, h⟩

theorem exists_of_getElem?_foldl_modify {f : β → β} {ids : List EntryId}
    (h : (ids.foldl (fun m id => m.modify id f) m)[x]? = some b) : ∃ a, m[x]? = some a := by
  induction ids generalizing m with
  | nil => exact ⟨b, h⟩
  | cons id ids ih =>
    obtain ⟨a, ha⟩ := ih h
    exact exists_of_getElem?_modify ha

/-- A scope has a history if it had one before the event, or if the event is about it. -/
theorem exists_of_spans_apply {l : Lifetimes} {e : Event} {spans : List Span}
    (h : (l.apply e).spans[x]? = some spans) :
    (∃ spans, l.spans[x]? = some spans) ∨ e.scopeId? = some x := by
  cases e with
  | openScope scope addr =>
    rcases exists_of_getElem?_insert h with h | rfl
    · exact .inl h
    · exact .inr rfl
  | closeScope scope addr => exact .inl (exists_of_getElem?_modify h)
  | startRange var addr place =>
    rw [apply, (spans_startRange l addr var place).1] at h
    exact .inl ⟨spans, h⟩
  | endFunction addr => exact .inl (exists_of_getElem?_foldl_modify h)
  | clear =>
    have hnone : (empty.spans)[x]? = none := Std.ExtTreeMap.getElem?_empty
    cases hnone.symm.trans h
  | _ => exact .inl ⟨spans, h⟩

/-- A variable has a storage if it had one before the event, or if the event is about it. -/
theorem exists_of_storage?_apply {l : Lifetimes} {e : Event} {st : Storage}
    (h : (l.apply e).storage? x = some st) :
    (∃ st, l.storage? x = some st) ∨ e.variableId? = some x := by
  cases e with
  | startRange var addr place =>
    by_cases heq : var = x
    · subst heq
      exact .inr rfl
    · rw [apply, storage?_startRange, if_neg heq] at h
      exact .inl ⟨st, h⟩
  | endRange var addr => exact .inl (exists_of_getElem?_modify h)
  | setFixed var frameOffset place =>
    rcases exists_of_getElem?_insert h with h | rfl
    · exact .inl h
    · exact .inr rfl
  | endFunction addr => exact .inl (exists_of_getElem?_foldl_modify h)
  | clear =>
    have hnone : empty.storage? x = none := Std.ExtTreeMap.getElem?_empty
    cases hnone.symm.trans h
  | _ => exact .inl ⟨st, h⟩

end DebugInfo.Lifetimes
