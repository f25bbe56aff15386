import Mathlib.Data.List.Nodup
import DebugInfo.Proofs.Lifetimes.Reordering

/-!
# Which ranges are open

A range is opened as the newest one of its scope or variable, and the one before it is ended first.
So only a newest range can be open, and the lists of what is open name the scopes and variables that
have one, each of them once.

The live ranges of a variable are followed through their spans, which change as those of a scope do
unless the variable has a fixed slot.
-/

namespace DebugInfo

/-- The ranges of addresses in which a variable lives, newest first. -/
def Storage.spans (st : Storage) : List Span := st.newestFirst.map (·.span)

namespace Lifetimes

/-! ## Histories -/

/-- Every range but the newest one has an end. -/
def OlderEnded (spans : List Span) : Prop := ∀ span ∈ spans.tail, span.isOpen = false

/-- The newest range is open if the first of the list is. -/
theorem newestOpen_iff {spans : List Span} :
    NewestOpen spans ↔ ∃ span, spans.head? = some span ∧ span.isOpen = true := by
  constructor
  · rintro ⟨start, rest, rfl⟩
    exact ⟨⟨start, none⟩, rfl, rfl⟩
  · rintro ⟨⟨start, stop⟩, hhead, hopen⟩
    obtain ⟨rest, rfl⟩ := List.head?_eq_some_iff.1 hhead
    obtain rfl : stop = none := Option.isNone_iff_eq_none.1 hopen
    exact ⟨start, rest, rfl⟩

/-- Where older ranges have an end, one is open only if the newest one is. -/
theorem OlderEnded.forall_iff {spans : List Span} (h : OlderEnded spans) :
    (∀ span ∈ spans, span.isOpen = false) ↔ ¬ NewestOpen spans := by
  cases spans with
  | nil => simp
  | cons span spans =>
    have hrest : ∀ span' ∈ spans, span'.isOpen = false := h
    rw [List.forall_mem_cons, newestOpen_iff]
    simp [and_iff_left hrest]

/-- If only the newest range can be open, then after it is ended none is. -/
theorem ended_endNewest {spans : List Span} (h : OlderEnded spans) (addr : Address) :
    ∀ span ∈ endNewest addr spans, span.isOpen = false := by
  have holder : OlderEnded (endNewest addr spans) := by
    rcases spans with _ | ⟨⟨start, _ | stop⟩, spans⟩ <;> exact h
  exact holder.forall_iff.2 (not_newestOpen_endNewest addr spans)

/-- To end the newest range opens none. -/
theorem olderEnded_endNewest {spans : List Span} (h : OlderEnded spans) (addr : Address) :
    OlderEnded (endNewest addr spans) :=
  fun span hspan => ended_endNewest h addr span (List.mem_of_mem_tail hspan)

/-- After any event only the newest range of a scope can be open. -/
theorem OlderEnded.apply {spans : List Span} (h : OlderEnded spans) (e : ScopeEvent) :
    OlderEnded (e.apply spans) := by
  cases e with
  -- The range that was the newest one becomes an older one, and it has just been ended.
  | opened addr => exact ended_endNewest h addr
  | closed addr => exact olderEnded_endNewest h addr
  | forgotten => exact fun _ hspan => nomatch hspan

/-! ## The spans of a variable -/

/-- To end the newest range of a variable ends the newest of its spans. -/
theorem spans_endNewestRange (addr : Address) (st : Storage) :
    (endNewestRange addr st).spans = endNewest addr st.spans := by
  rcases st with (_ | ⟨⟨⟨start, _ | stop⟩, place⟩, ranges⟩) | ⟨offset, place⟩ <;> rfl

/-- A new range brings a new span, unless the storage is fixed. -/
theorem spans_pushRange (range : LiveRange) (st : Storage) :
    (pushRange range st).spans = if st.isFixed then [] else range.span :: st.spans := by
  cases st <;> rfl

/-- A variable has an open range if the newest of its spans is open. -/
theorem rangeOpen_iff {st : Storage} : RangeOpen st ↔ NewestOpen st.spans := by
  constructor
  · rintro ⟨start, place, rest, rfl⟩
    exact newestOpen_cons start _
  · rintro ⟨start, rest, h⟩
    rcases st with (_ | ⟨⟨span, place⟩, ranges⟩) | ⟨offset, place⟩
    · cases h
    · cases h
      exact ⟨start, place, ranges, rfl⟩
    · cases h

/-- Only the newest live range of a variable may be open. -/
def OlderRangesEnded (storage : Option Storage) : Prop :=
  ∀ st, storage = some st → OlderEnded st.spans

/-- After any event only the newest range of a variable can be open. -/
theorem OlderRangesEnded.apply {storage : Option Storage} (h : OlderRangesEnded storage)
    (e : VariableEvent) : OlderRangesEnded (e.apply storage) := by
  intro st hst
  cases e with
  | started addr place =>
    have hold : OlderEnded ((storage.getD (.ranges [])).spans) := by
      cases storage with
      | none => exact fun _ hspan => nomatch hspan
      | some old => exact h old rfl
    cases hst
    rw [spans_pushRange, spans_endNewestRange]
    split
    · exact fun _ hspan => nomatch hspan
    · exact ended_endNewest hold addr
  | ended addr =>
    obtain ⟨old, rfl, rfl⟩ := Option.map_eq_some_iff.1 hst
    rw [spans_endNewestRange]
    exact olderEnded_endNewest (h old rfl) addr
  | fixed offset place =>
    cases hst
    exact fun _ hspan => nomatch hspan
  | forgotten => cases hst

/-! ## The tracker -/

/-- The lists of what is open are right and name nothing twice, and older ranges have an end. -/
structure Tidy (l : Lifetimes) : Prop extends Consistent l where
  olderSpans : ∀ s, OlderEnded (l.spansOf s)
  olderRanges : ∀ v, OlderRangesEnded (l.storage? v)
  nodupScopes : l.openScopes.Nodup
  nodupVariables : l.openVariables.Nodup

theorem tidy_empty : Tidy empty where
  toConsistent := consistent_empty
  olderSpans s := by simp [empty, spansOf, OlderEnded]
  olderRanges v := by simp [empty, storage?, OlderRangesEnded]
  nodupScopes := .nil
  nodupVariables := .nil

/-- No event lists a scope twice. -/
theorem nodup_openScopes_apply {l : Lifetimes} (h : l.openScopes.Nodup) (e : Event) :
    (l.apply e).openScopes.Nodup := by
  cases e with
  | openScope scope addr => exact List.Nodup.insert h
  | closeScope scope addr => exact h.filter _
  | startRange var addr place =>
    rw [apply, (spans_startRange l addr var place).2]
    exact h
  | endFunction addr => exact .nil
  | clear => exact .nil
  | _ => exact h

theorem nodup_openVariables_apply {l : Lifetimes} (h : l.openVariables.Nodup) (e : Event) :
    (l.apply e).openVariables.Nodup := by
  cases e with
  | startRange var addr place =>
    show (if _ then l else _).openVariables.Nodup
    split
    · exact h
    · exact List.Nodup.insert h
  | endRange var addr => exact h.filter _
  | setFixed var frameOffset place => exact h.filter _
  | endFunction addr => exact .nil
  | clear => exact .nil
  | _ => exact h

/-- A tidy tracker stays so with one more event. -/
theorem Tidy.apply {l : Lifetimes} (h : Tidy l) (e : Event) : Tidy (l.apply e) where
  toConsistent := h.toConsistent.apply e
  olderSpans s := by
    rw [spansOf_apply h.toConsistent]
    cases e.toScope? s with
    | none => exact h.olderSpans s
    | some e' => exact (h.olderSpans s).apply e'
  olderRanges v := by
    rw [storage?_apply h.toConsistent]
    cases e.toVariable? v with
    | none => exact h.olderRanges v
    | some e' => exact (h.olderRanges v).apply e'
  nodupScopes := nodup_openScopes_apply h.nodupScopes e
  nodupVariables := nodup_openVariables_apply h.nodupVariables e

theorem tidy_foldl_apply {l : Lifetimes} (h : Tidy l) (events : List Event) :
    Tidy (events.foldl apply l) := by
  induction events generalizing l with
  | nil => exact h
  | cons e events ih => exact ih (h.apply e)

/-- The tracker is tidy after any events. -/
theorem tidy_run (events : List Event) : Tidy (run events) := tidy_foldl_apply tidy_empty events

/-! ## What the lists say -/

/-- No range of any scope or variable is open. -/
structure AllEnded (l : Lifetimes) : Prop where
  spans : ∀ s, ∀ span ∈ l.spansOf s, span.isOpen = false
  ranges : ∀ v st, l.storage? v = some st → ∀ range ∈ st.newestFirst, range.span.isOpen = false

/-- Only newest ranges are open, the lists name exactly the scopes and variables that have an open
one, and nothing is open if and only if every range has an end. -/
structure OpenExact (l : Lifetimes) : Prop where
  olderSpans : ∀ s, ∀ span ∈ (l.spansOf s).tail, span.isOpen = false
  olderRanges : ∀ v st, l.storage? v = some st →
    ∀ range ∈ st.newestFirst.tail, range.span.isOpen = false
  mem_openScopes : ∀ s, s ∈ l.openScopes ↔
    ∃ span, (l.spansOf s).head? = some span ∧ span.isOpen = true
  mem_openVariables : ∀ v, v ∈ l.openVariables ↔ ∃ st range, l.storage? v = some st ∧
    st.newestFirst.head? = some range ∧ range.span.isOpen = true
  nodupScopes : l.openScopes.Nodup
  nodupVariables : l.openVariables.Nodup
  fixed : ∀ v st, l.storage? v = some st → st.isFixed = true → v ∉ l.openVariables
  anyOpen : l.anyOpen = false ↔ l.AllEnded

/-- A variable has an open range if the first in its list is open. -/
theorem rangeOpen_iff_head? {st : Storage} :
    RangeOpen st ↔ ∃ range, st.newestFirst.head? = some range ∧ range.span.isOpen = true := by
  simp only [rangeOpen_iff, newestOpen_iff, Storage.spans, List.head?_map, Option.map_eq_some_iff]
  constructor
  · rintro ⟨_, ⟨range, hrange, rfl⟩, hopen⟩
    exact ⟨range, hrange, hopen⟩
  · rintro ⟨range, hrange, hopen⟩
    exact ⟨range.span, ⟨range, hrange, rfl⟩, hopen⟩

/-- In a tidy tracker everything has ended if the newest ranges have. -/
theorem Tidy.allEnded_iff {l : Lifetimes} (h : Tidy l) : l.AllEnded ↔
    (∀ s, ¬ NewestOpen (l.spansOf s)) ∧ ∀ v st, l.storage? v = some st → ¬ RangeOpen st := by
  have hranges (st : Storage) : (∀ range ∈ st.newestFirst, range.span.isOpen = false) ↔
      ∀ span ∈ st.spans, span.isOpen = false := by
    simp [Storage.spans]
  constructor
  · intro hended
    refine ⟨fun s => (h.olderSpans s).forall_iff.1 (hended.spans s), fun v st hst => ?_⟩
    rw [rangeOpen_iff]
    exact (h.olderRanges v st hst).forall_iff.1 ((hranges st).1 (hended.ranges v st hst))
  · rintro ⟨hspans, hstorages⟩
    refine ⟨fun s => (h.olderSpans s).forall_iff.2 (hspans s), fun v st hst => ?_⟩
    have hclosed := hstorages v st hst
    rw [rangeOpen_iff] at hclosed
    exact (hranges st).2 ((h.olderRanges v st hst).forall_iff.2 hclosed)

/-- A tidy tracker says that nothing is open exactly if everything has ended. -/
theorem Tidy.anyOpen_eq_false_iff {l : Lifetimes} (h : Tidy l) :
    l.anyOpen = false ↔ l.AllEnded := by
  rw [h.allEnded_iff, ← Bool.not_eq_true, h.toConsistent.anyOpen_iff]
  simp only [not_or, not_exists, not_and]

/-- The lists of a tidy tracker say exactly what is open. -/
theorem Tidy.openExact {l : Lifetimes} (h : Tidy l) : l.OpenExact where
  olderSpans := h.olderSpans
  olderRanges v st hst range hrange := by
    refine h.olderRanges v st hst range.span ?_
    rw [Storage.spans, ← List.map_tail]
    exact List.mem_map_of_mem hrange
  mem_openScopes s := by rw [h.mem_openScopes, newestOpen_iff]
  mem_openVariables v := by
    simp only [h.mem_openVariables, rangeOpen_iff_head?, exists_and_left]
  nodupScopes := h.nodupScopes
  nodupVariables := h.nodupVariables
  fixed v st hst hfixed hmem := by
    obtain ⟨st', hst', hopen⟩ := (h.mem_openVariables v).1 hmem
    rw [hst] at hst'
    cases hst'
    cases st with
    | ranges ranges => cases hfixed
    | fixed offset place => exact not_rangeOpen_fixed offset place hopen
  anyOpen := h.anyOpen_eq_false_iff

/-! ## The end of a function -/

/-- Every live range ended at `addr`, unless it has an end already.  A fixed slot stays as it is. -/
def endAll (addr : Address) : Storage → Storage
  | .ranges ranges => .ranges (ranges.map (·.endAt addr))
  | .fixed frameOffset place => .fixed frameOffset place

theorem modifyHead_eq_map {α : Type} {f : α → α} {as : List α} (h : ∀ a ∈ as.tail, f a = a) :
    as.modifyHead f = as.map f := by
  cases as with
  | nil => rfl
  | cons a as =>
    have htail : as.map f = as.map id := List.map_congr_left h
    rw [List.modifyHead_cons, List.map_cons, htail, List.map_id]

/-- What has an end keeps it, so where only the newest range may be open it is the only one that is
ended. -/
theorem OlderEnded.endNewest_eq {spans : List Span} (h : OlderEnded spans) (addr : Address) :
    endNewest addr spans = spans.map (·.endAt addr) := by
  rw [← closeSpan_eq, closeSpan]
  exact modifyHead_eq_map fun older holder => Span.endAt_of_not_isOpen (h older holder)

theorem OlderEnded.endNewestRange_eq {st : Storage} (h : OlderEnded st.spans) (addr : Address) :
    endNewestRange addr st = endAll addr st := by
  rw [← endRange_eq]
  cases st with
  | fixed offset place => rfl
  | ranges ranges =>
    refine congrArg Storage.ranges (modifyHead_eq_map fun older holder => ?_)
    have hspan : older.span ∈ (Storage.ranges ranges).spans.tail := by
      rw [Storage.spans, ← List.map_tail]
      exact List.mem_map_of_mem holder
    rw [LiveRange.endAt, Span.endAt_of_not_isOpen (h older.span hspan)]

/-- Nothing is lost: every range is still there with its start and its place, and with its end, if
it had one already. -/
theorem Tidy.endFunction {l : Lifetimes} (h : Tidy l) (addr : Address) :
    (∀ s, (l.endFunction addr).spansOf s = (l.spansOf s).map (·.endAt addr)) ∧
      ∀ v, (l.endFunction addr).storage? v = (l.storage? v).map (endAll addr) := by
  refine ⟨fun s => ?_, fun v => ?_⟩
  · rw [spansOf_endFunction h.toConsistent, (h.olderSpans s).endNewest_eq]
  · rw [storage?_endFunction h.toConsistent]
    cases hst : l.storage? v with
    | none => rfl
    | some st => rw [Option.map_some, Option.map_some, (h.olderRanges v st hst).endNewestRange_eq]

/-- In whatever order events come, the tracker knows exactly what is open.  When a function ends,
every range that was recorded so far has an end, and nothing else about it is different. -/
theorem run_open_exact (events : List Event) :
    (run events).OpenExact ∧ ∀ addr, let l := run (events ++ [.endFunction addr])
      l.AllEnded ∧ (∀ s, l.spansOf s = ((run events).spansOf s).map (·.endAt addr)) ∧
      ∀ v, l.storage? v = ((run events).storage? v).map (endAll addr) := by
  refine ⟨(tidy_run events).openExact, fun addr => ?_⟩
  intro l
  have hl : l = (run events).endFunction addr := run_append_singleton events (.endFunction addr)
  -- The end of a function empties the lists, so it is enough that these are right.
  have hnone : l.anyOpen = false := by
    rw [hl]
    rfl
  refine ⟨(tidy_run _).anyOpen_eq_false_iff.1 hnone, ?_⟩
  rw [hl]
  exact (tidy_run events).endFunction addr

end Lifetimes

end DebugInfo
