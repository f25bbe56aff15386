import DebugInfo.Proofs.Lifetimes.Machines

/-!
# The tracker is a product of machines

The end of a function does not look at the histories: it ends what the lists of open scopes and
variables name.  `Consistent` says that these lists are right: they name what has an open newest
range, and nothing else.  Every event keeps them so, in whatever order events come, and so the end
of a function ends what is open and nothing else (`spansOf_apply`, `storage?_apply`).
-/

namespace DebugInfo.Lifetimes

/-! ## The lists of what is open -/

structure Consistent (l : Lifetimes) : Prop where
  mem_openScopes : ∀ s, s ∈ l.openScopes ↔ NewestOpen (l.spansOf s)
  mem_openVariables : ∀ v, v ∈ l.openVariables ↔ ∃ st, l.storage? v = some st ∧ RangeOpen st
  /-- A scope has no empty history in the table. -/
  ne_nil : ∀ s : EntryId, l.spans[s]? ≠ some []

theorem consistent_empty : Consistent empty where
  mem_openScopes s := by simp [empty, spansOf]
  mem_openVariables v := by simp [empty, storage?]
  ne_nil s := by simp [empty]

/-- Changing the entries of some ids one after the other, where a second change does nothing. -/
theorem getElem?_foldl_modify {β : Type} {f : β → β} (hf : ∀ b, f (f b) = f b)
    (ids : List EntryId) (m : EntryMap β) (k : EntryId) :
    (ids.foldl (fun m id => m.modify id f) m)[k]? = if k ∈ ids then m[k]?.map f else m[k]? := by
  induction ids generalizing m with
  | nil => simp
  | cons id ids ih =>
    rw [List.foldl_cons, ih, Std.ExtTreeMap.getElem?_modify]
    by_cases hid : id = k
    · subst hid
      by_cases hmem : id ∈ ids <;> simp [hmem, Function.comp_def, hf]
    · by_cases hmem : k ∈ ids <;> simp [hmem, hid, Ne.symm hid]

/-! ## What an operation does to one entity -/

section Operations

variable (l : Lifetimes) (s v : EntryId) (addr : Address)

/-- To open a scope begins a range of that scope only. -/
theorem spansOf_openScope (scope : EntryId) :
    (l.openScope scope addr).spansOf s =
      if scope = s then ⟨addr, none⟩ :: endNewest addr (l.spansOf s) else l.spansOf s := by
  by_cases h : scope = s <;>
    simp [openScope, spansOf, Std.ExtTreeMap.getElem?_insert, h, openSpan_eq]

theorem spansOf_closeScope (scope : EntryId) :
    (l.closeScope scope addr).spansOf s =
      if scope = s then endNewest addr (l.spansOf s) else l.spansOf s := by
  by_cases h : scope = s
  · subst h
    cases hs : l.spans[scope]? <;> simp [closeScope, spansOf, hs, closeSpan_eq, endNewest]
  · simp [closeScope, spansOf, Std.ExtTreeMap.getElem?_modify, h]

/-- A variable without storage is not fixed. -/
theorem storage?_of_isFixed {l : Lifetimes} {var : EntryId}
    (h : ((l.storage? var).getD (.ranges [])).isFixed = true) :
    ∃ st, l.storage? var = some st ∧ st.isFixed = true := by
  cases hst : l.storage? var with
  | none => simp [hst, Storage.isFixed] at h
  | some st => exact ⟨st, rfl, by simpa only [hst, Option.getD_some] using h⟩

/-- A variable with a fixed place starts no range. -/
theorem startRange_of_storage?_isFixed {var : EntryId} {place : Place} {st : Storage}
    (hst : l.storage? var = some st) (h : st.isFixed = true) :
    l.startRange var addr place = l := by
  unfold startRange
  rw [hst]
  exact if_pos h

theorem startRange_of_storage?_not_isFixed {var : EntryId} (place : Place)
    (h : ((l.storage? var).getD (.ranges [])).isFixed = false) :
    l.startRange var addr place =
      { l with
        storages := l.storages.insert var
          (((l.storage? var).getD (.ranges [])).startRange addr place)
        openVariables := l.openVariables.insert var } := by
  unfold startRange
  exact if_neg (Bool.eq_false_iff.1 h)

/-- To start a range changes the storage of that variable only. -/
theorem storage?_startRange (var : EntryId) (place : Place) :
    (l.startRange var addr place).storage? v =
      if var = v then some (((l.storage? v).getD (.ranges [])).startRange addr place)
      else l.storage? v := by
  cases hfixed : ((l.storage? var).getD (.ranges [])).isFixed with
  | true =>
    obtain ⟨st, hst, hst'⟩ := storage?_of_isFixed hfixed
    rw [startRange_of_storage?_isFixed l addr hst hst']
    split
    · next h =>
      rw [← h, hst, Option.getD_some, startRange_of_isFixed hst']
    · rfl
  | false =>
    rw [startRange_of_storage?_not_isFixed l addr place hfixed]
    by_cases h : var = v
    · subst h
      simp [storage?]
    · simp [storage?, Std.ExtTreeMap.getElem?_insert, h]

theorem storage?_endRange (var : EntryId) :
    (l.endRange var addr).storage? v =
      if var = v then (l.storage? v).map (endNewestRange addr) else l.storage? v := by
  by_cases h : var = v
  · subst h
    simp [endRange, storage?, funext (endRange_eq addr)]
  · simp [endRange, storage?, Std.ExtTreeMap.getElem?_modify, h]

theorem storage?_setFixed (var : EntryId) (frameOffset : Int) (place : Place) :
    (l.setFixed var frameOffset place).storage? v =
      if var = v then some (.fixed frameOffset place) else l.storage? v := by
  by_cases h : var = v <;> simp [setFixed, storage?, Std.ExtTreeMap.getElem?_insert, h]

/-- To start a range does nothing to the scopes. -/
theorem spans_startRange (var : EntryId) (place : Place) :
    (l.startRange var addr place).spans = l.spans ∧
      (l.startRange var addr place).openScopes = l.openScopes := by
  unfold startRange
  dsimp only
  split <;> exact ⟨rfl, rfl⟩

end Operations

section EndFunction

variable {l : Lifetimes} (h : Consistent l) (addr : Address)
include h

/-- The end of a function ends every open newest range: what the list does not name is not open. -/
theorem spansOf_endFunction (s : EntryId) :
    (l.endFunction addr).spansOf s = endNewest addr (l.spansOf s) := by
  rw [spansOf, endFunction, getElem?_foldl_modify (closeSpan_closeSpan addr)]
  split
  · cases hs : l.spans[s]? <;> simp [spansOf, hs, closeSpan_eq, endNewest]
  · next hmem =>
    have hclosed : ¬ NewestOpen (l.spansOf s) := fun ho => hmem ((h.mem_openScopes s).2 ho)
    rw [endNewest_of_not_newestOpen hclosed]
    rfl

/-- The end of a function ends the newest range of every variable. -/
theorem storage?_endFunction (v : EntryId) :
    (l.endFunction addr).storage? v = (l.storage? v).map (endNewestRange addr) := by
  rw [storage?, endFunction, getElem?_foldl_modify (endRange_endRange addr)]
  split
  · rw [storage?, funext (endRange_eq addr)]
  · next hmem =>
    cases hst : l.storage? v with
    | none => exact hst
    | some st =>
      have hclosed : ¬ RangeOpen st := fun ho => hmem ((h.mem_openVariables v).2 ⟨st, hst, ho⟩)
      rw [Option.map_some, endNewestRange_of_not_rangeOpen hclosed]
      exact hst

end EndFunction

/-! ## One event -/

/-- To a scope, an event is what the machine of the scope makes of it, or nothing. -/
theorem spansOf_apply {l : Lifetimes} (h : Consistent l) (e : Event) (s : EntryId) :
    (l.apply e).spansOf s = (e.toScope? s).elim (l.spansOf s) (ScopeEvent.apply (l.spansOf s)) := by
  cases e with
  | openScope scope addr =>
    rw [apply, spansOf_openScope]
    by_cases hs : scope = s <;> simp [Event.toScope?, hs, ScopeEvent.apply]
  | closeScope scope addr =>
    rw [apply, spansOf_closeScope]
    by_cases hs : scope = s <;> simp [Event.toScope?, hs, ScopeEvent.apply]
  | startRange var addr place =>
    rw [apply, spansOf, (spans_startRange l addr var place).1]
    rfl
  | endFunction addr => exact spansOf_endFunction h addr s
  | clear => simp [apply, empty, spansOf, Event.toScope?, ScopeEvent.apply]
  | _ => rfl

/-- To a variable, an event is what the machine of the variable makes of it, or nothing. -/
theorem storage?_apply {l : Lifetimes} (h : Consistent l) (e : Event) (v : EntryId) :
    (l.apply e).storage? v =
      (e.toVariable? v).elim (l.storage? v) (VariableEvent.apply (l.storage? v)) := by
  cases e with
  | startRange var addr place =>
    rw [apply, storage?_startRange, startRange_eq]
    by_cases hv : var = v <;> simp [Event.toVariable?, hv, VariableEvent.apply]
  | endRange var addr =>
    rw [apply, storage?_endRange]
    by_cases hv : var = v <;> simp [Event.toVariable?, hv, VariableEvent.apply]
  | setFixed var frameOffset place =>
    rw [apply, storage?_setFixed]
    by_cases hv : var = v <;> simp [Event.toVariable?, hv, VariableEvent.apply]
  | endFunction addr => exact storage?_endFunction h addr v
  | clear => simp [apply, empty, storage?, Event.toVariable?, VariableEvent.apply]
  | _ => rfl

/-! ## The lists stay right -/

theorem closeSpan_ne_nil {spans : List Span} (h : spans ≠ []) (addr : Address) :
    closeSpan addr spans ≠ [] := by
  rw [closeSpan_eq]
  exact endNewest_ne_nil h addr

/-- Ending the newest range makes no history empty. -/
theorem ne_nil_map_closeSpan {o : Option (List Span)} (h : o ≠ some []) (addr : Address) :
    o.map (closeSpan addr) ≠ some [] := by
  intro ho
  obtain ⟨spans, rfl, hspans⟩ := Option.map_eq_some_iff.1 ho
  have hne : spans ≠ [] := fun hnil => h (congrArg some hnil)
  exact closeSpan_ne_nil hne addr hspans

namespace Consistent

variable {l : Lifetimes} (h : Consistent l)
include h

/-- The lists stay right when a scope is opened. -/
theorem openScope (scope : EntryId) (addr : Address) : Consistent (l.openScope scope addr) where
  mem_openScopes s := by
    rw [spansOf_openScope, Lifetimes.openScope, List.mem_insert_iff, h.mem_openScopes]
    by_cases hs : scope = s
    · simp [hs, newestOpen_cons]
    · simp [hs, Ne.symm hs]
  mem_openVariables := h.mem_openVariables
  ne_nil s := by
    rw [Lifetimes.openScope, Std.ExtTreeMap.getElem?_insert]
    split
    · simp [openSpan]
    · exact h.ne_nil s

theorem closeScope (scope : EntryId) (addr : Address) : Consistent (l.closeScope scope addr) where
  mem_openScopes s := by
    rw [spansOf_closeScope, Lifetimes.closeScope, List.mem_filter, h.mem_openScopes]
    by_cases hs : scope = s
    · simp [hs, not_newestOpen_endNewest]
    · simp [hs, Ne.symm hs]
  mem_openVariables := h.mem_openVariables
  ne_nil s := by
    rw [Lifetimes.closeScope, Std.ExtTreeMap.getElem?_modify]
    split
    · exact ne_nil_map_closeSpan (h.ne_nil scope) addr
    · exact h.ne_nil s

theorem startRange (var : EntryId) (addr : Address) (place : Place) :
    Consistent (l.startRange var addr place) where
  mem_openScopes s := by
    obtain ⟨hspans, hopen⟩ := spans_startRange l addr var place
    rw [hopen, spansOf, hspans]
    exact h.mem_openScopes s
  mem_openVariables v := by
    cases hfixed : ((l.storage? var).getD (.ranges [])).isFixed with
    | true =>
      obtain ⟨st, hst, hst'⟩ := storage?_of_isFixed hfixed
      rw [startRange_of_storage?_isFixed l addr hst hst']
      exact h.mem_openVariables v
    | false =>
      rw [storage?_startRange, startRange_of_storage?_not_isFixed l addr place hfixed,
        List.mem_insert_iff, h.mem_openVariables]
      by_cases hv : var = v
      · subst hv
        simp [rangeOpen_startRange hfixed]
      · simp [hv, Ne.symm hv]
  ne_nil s := by
    rw [(spans_startRange l addr var place).1]
    exact h.ne_nil s

theorem endRange (var : EntryId) (addr : Address) : Consistent (l.endRange var addr) where
  mem_openScopes := h.mem_openScopes
  mem_openVariables v := by
    rw [storage?_endRange, Lifetimes.endRange, List.mem_filter, h.mem_openVariables]
    by_cases hv : var = v
    · simp [hv, not_rangeOpen_endNewestRange]
    · simp [hv, Ne.symm hv]
  ne_nil := h.ne_nil

theorem setFixed (var : EntryId) (frameOffset : Int) (place : Place) :
    Consistent (l.setFixed var frameOffset place) where
  mem_openScopes := h.mem_openScopes
  mem_openVariables v := by
    rw [storage?_setFixed, Lifetimes.setFixed, List.mem_filter, h.mem_openVariables]
    by_cases hv : var = v
    · simp [hv]
    · simp [hv, Ne.symm hv]
  ne_nil := h.ne_nil

/-- The lists are right, since they are empty, when a function has ended. -/
theorem endFunction (addr : Address) : Consistent (l.endFunction addr) where
  mem_openScopes s := by
    rw [spansOf_endFunction h]
    simp [Lifetimes.endFunction, not_newestOpen_endNewest]
  mem_openVariables v := by
    rw [storage?_endFunction h]
    simp [Lifetimes.endFunction, not_rangeOpen_endNewestRange]
  ne_nil s := by
    rw [Lifetimes.endFunction, getElem?_foldl_modify (closeSpan_closeSpan addr)]
    split
    · exact ne_nil_map_closeSpan (h.ne_nil s) addr
    · exact h.ne_nil s

/-- An event of any kind keeps the lists right. -/
theorem apply (e : Event) : Consistent (l.apply e) := by
  cases e with
  | openScope scope addr => exact h.openScope scope addr
  | closeScope scope addr => exact h.closeScope scope addr
  | startRange var addr place => exact h.startRange var addr place
  | endRange var addr => exact h.endRange var addr
  | setFixed var frameOffset place => exact h.setFixed var frameOffset place
  | endFunction addr => exact h.endFunction addr
  | clear => exact consistent_empty

end Consistent

end DebugInfo.Lifetimes
