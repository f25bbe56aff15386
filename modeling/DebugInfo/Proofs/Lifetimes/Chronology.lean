import Mathlib.Data.List.DropRight
import Mathlib.Data.List.Induction
import DebugInfo.Proofs.Lifetimes.Nesting

/-!
# Histories in order

If addresses never decrease, then the ranges of a scope or variable are intervals that follow one
upon the other, in whatever order events on different scopes and variables come and however they are
nested.  The addresses of a history are those of events, so none is later than the last event.

Nothing is said of the events before the table was last cleared, whose addresses may be any.
-/

namespace DebugInfo

/-- The ranges, oldest first, are intervals one after the other, none of them later than `last`.
That the one ends before the other starts says that it has an end. -/
structure Timeline (last : Option Address) (spans : List Span) : Prop where
  forward : ∀ a ∈ spans, ∀ stop, a.stop = some stop → a.start ≤ stop
  apart : spans.Pairwise Span.Before
  reached : ∀ a ∈ spans, ∃ now, last = some now ∧ a.Until now

/-- The places at which a variable has lived, in order. -/
def Storage.places (st : Storage) : List Place := (st.newestFirst.map (·.place)).reverse

namespace Lifetimes

/-! ## One history -/

/-- The ranges, newest first, are intervals one before the other that start and end at some of the
addresses. -/
structure Chronological (addresses : List Address) (spans : List Span) : Prop where
  forward : ∀ a ∈ spans, ∀ stop, a.stop = some stop → a.start ≤ stop
  apart : spans.Pairwise fun newer older => older.Before newer
  start : ∀ a ∈ spans, a.start ∈ addresses
  stop : ∀ a ∈ spans, ∀ stop, a.stop = some stop → stop ∈ addresses

theorem chronological_nil (addresses : List Address) : Chronological addresses [] where
  forward _ h := nomatch h
  apart := .nil
  start _ h := nomatch h
  stop _ h := nomatch h

namespace Chronological

variable {addresses : List Address} {spans : List Span} {addr : Address}
  (h : Chronological addresses spans)
include h

theorem append (more : List Address) : Chronological (addresses ++ more) spans where
  forward := h.forward
  apart := h.apart
  start a ha := List.mem_append_left more (h.start a ha)
  stop a ha stop hstop := List.mem_append_left more (h.stop a ha stop hstop)

/-- The newest range ends, if it has no end, and it is where it was among the others. -/
theorem endNewest (haddr : ∀ b ∈ addresses, b ≤ addr) :
    Chronological (addresses ++ [addr]) (Lifetimes.endNewest addr spans) := by
  have hkept := h.append [addr]
  rcases spans with _ | ⟨⟨start, _ | stop⟩, spans⟩
  · exact hkept
  · have hstart : start ≤ addr := haddr start (h.start _ List.mem_cons_self)
    refine ⟨?_, ?_, ?_, ?_⟩
    · rintro a ha stop hstop
      rcases List.mem_cons.1 ha with rfl | ha
      · cases hstop
        exact hstart
      · exact hkept.forward a (List.mem_cons_of_mem _ ha) stop hstop
    · exact List.pairwise_cons.2 (List.pairwise_cons.1 h.apart)
    · rintro a ha
      rcases List.mem_cons.1 ha with rfl | ha
      · exact hkept.start ⟨start, none⟩ List.mem_cons_self
      · exact hkept.start a (List.mem_cons_of_mem _ ha)
    · rintro a ha stop hstop
      rcases List.mem_cons.1 ha with rfl | ha
      · cases hstop
        exact List.mem_append_right _ List.mem_cons_self
      · exact hkept.stop a (List.mem_cons_of_mem _ ha) stop hstop
  · exact hkept

/-- A range is opened after all others have ended. -/
theorem push (haddr : ∀ b ∈ addresses, b ≤ addr) (hmem : addr ∈ addresses)
    (hended : ∀ a ∈ spans, a.isOpen = false) : Chronological addresses (⟨addr, none⟩ :: spans) where
  forward a ha stop hstop := by
    rcases List.mem_cons.1 ha with rfl | ha
    · cases hstop
    · exact h.forward a ha stop hstop
  apart := by
    refine List.pairwise_cons.2 ⟨fun a ha => ?_, h.apart⟩
    have huntil : a.Until addr :=
      ⟨haddr a.start (h.start a ha), fun stop hstop => haddr stop (h.stop a ha stop hstop)⟩
    exact huntil.finish_le (hended a ha)
  start a ha := by
    rcases List.mem_cons.1 ha with rfl | ha
    · exact hmem
    · exact h.start a ha
  stop a ha stop hstop := by
    rcases List.mem_cons.1 ha with rfl | ha
    · cases hstop
    · exact h.stop a ha stop hstop

/-- A range is opened, which ends the one before it. -/
theorem reopen (haddr : ∀ b ∈ addresses, b ≤ addr) (holder : OlderEnded spans) :
    Chronological (addresses ++ [addr]) (⟨addr, none⟩ :: Lifetimes.endNewest addr spans) := by
  refine (h.endNewest haddr).push ?_ (by simp) (ended_endNewest holder addr)
  rintro b hb
  rcases List.mem_append.1 hb with hb | hb
  · exact haddr b hb
  · cases List.mem_singleton.1 hb
    exact Nat.le_refl addr.raw

/-- The addresses never decrease, so the last one is not exceeded. -/
theorem timeline (hsorted : addresses.Pairwise (· ≤ ·)) :
    Timeline addresses.getLast? spans.reverse where
  forward a ha := h.forward a (List.mem_reverse.1 ha)
  apart := List.pairwise_reverse.2 h.apart
  reached a ha := by
    rw [List.mem_reverse] at ha
    obtain rfl | ⟨earlier, last, rfl⟩ := addresses.eq_nil_or_concat'
    · exact absurd (h.start a ha) List.not_mem_nil
    · have hlast : ∀ addr ∈ earlier ++ [last], addr ≤ last := by
        rintro addr haddr
        rcases List.mem_append.1 haddr with haddr | haddr
        · exact (List.pairwise_append.1 hsorted).2.2 addr haddr last List.mem_cons_self
        · cases List.mem_singleton.1 haddr
          exact Nat.le_refl last.raw
      refine ⟨last, List.getLast?_concat, hlast a.start (h.start a ha), ?_⟩
      exact fun stop hstop => hlast stop (h.stop a ha stop hstop)

end Chronological

/-! ## All histories -/

/-- Every history is in order, with the addresses of events. -/
structure AllChronological (addresses : List Address) (l : Lifetimes) : Prop where
  spans : ∀ s, Chronological addresses (l.spansOf s)
  ranges : ∀ v st, l.storage? v = some st → Chronological addresses st.spans

/-- The address that an event has for a scope. -/
def ScopeEvent.addr? : ScopeEvent → Option Address
  | .opened addr | .closed addr => some addr
  | .forgotten => none

def VariableEvent.addr? : VariableEvent → Option Address
  | .started addr _ | .ended addr => some addr
  | .fixed _ _ | .forgotten => none

/-- A scope sees the address of an event that it takes part in. -/
theorem Event.addr?_toScope? {e : Event} {s : EntryId} {e' : ScopeEvent}
    (h : e.toScope? s = some e') : e'.addr? = e.addr? := by
  cases e with
  | openScope scope addr | closeScope scope addr =>
    obtain ⟨-, h⟩ := Option.ite_none_right_eq_some.1 h
    cases h
    rfl
  | endFunction addr | clear =>
    cases h
    rfl
  | _ => cases h

theorem Event.addr?_toVariable? {e : Event} {v : EntryId} {e' : VariableEvent}
    (h : e.toVariable? v = some e') : e'.addr? = e.addr? := by
  cases e with
  | startRange var addr place | endRange var addr | setFixed var offset place =>
    obtain ⟨-, h⟩ := Option.ite_none_right_eq_some.1 h
    cases h
    rfl
  | endFunction addr | clear =>
    cases h
    rfl
  | _ => cases h

section Step

variable {addresses : List Address}

/-- The ranges of a scope stay in order with one more event. -/
theorem Chronological.applyScope {spans : List Span} (h : Chronological addresses spans)
    (holder : OlderEnded spans) (e : ScopeEvent)
    (haddr : ∀ addr, e.addr? = some addr → ∀ b ∈ addresses, b ≤ addr) :
    Chronological (addresses ++ e.addr?.toList) (e.apply spans) := by
  cases e with
  | opened addr => exact h.reopen (haddr addr rfl) holder
  | closed addr => exact h.endNewest (haddr addr rfl)
  | forgotten => exact chronological_nil _

/-- The ranges of a variable stay in order with one more event. -/
theorem Chronological.applyVariable {storage : Option Storage}
    (h : ∀ st, storage = some st → Chronological addresses st.spans)
    (holder : OlderRangesEnded storage) (e : VariableEvent)
    (haddr : ∀ addr, e.addr? = some addr → ∀ b ∈ addresses, b ≤ addr) :
    ∀ st, e.apply storage = some st → Chronological (addresses ++ e.addr?.toList) st.spans := by
  rintro st hst
  cases e with
  | started addr place =>
    have hold : Chronological addresses (storage.getD (.ranges [])).spans ∧
        OlderEnded (storage.getD (.ranges [])).spans := by
      cases storage with
      | none => exact ⟨chronological_nil _, fun _ hspan => nomatch hspan⟩
      | some old => exact ⟨h old rfl, holder old rfl⟩
    cases hst
    rw [spans_pushRange, spans_endNewestRange]
    split
    · exact chronological_nil _
    · exact hold.1.reopen (haddr addr rfl) hold.2
  | ended addr =>
    obtain ⟨old, rfl, rfl⟩ := Option.map_eq_some_iff.1 hst
    rw [spans_endNewestRange]
    exact (h old rfl).endNewest (haddr addr rfl)
  | fixed offset place =>
    cases hst
    exact chronological_nil _
  | forgotten => cases hst

/-- An event that is no earlier than all before keeps every history in order. -/
theorem AllChronological.apply {l : Lifetimes} (hl : Tidy l) (h : AllChronological addresses l)
    (e : Event) (haddr : ∀ addr, e.addr? = some addr → ∀ b ∈ addresses, b ≤ addr) :
    AllChronological (addresses ++ e.addr?.toList) (l.apply e) where
  spans s := by
    rw [spansOf_apply hl.toConsistent]
    cases he : e.toScope? s with
    | none => exact (h.spans s).append _
    | some e' =>
      have heq := Event.addr?_toScope? he
      rw [← heq] at haddr ⊢
      exact (h.spans s).applyScope (hl.olderSpans s) e' haddr
  ranges v st hst := by
    rw [storage?_apply hl.toConsistent] at hst
    cases he : e.toVariable? v with
    | none =>
      rw [he, Option.elim_none] at hst
      exact (h.ranges v st hst).append _
    | some e' =>
      rw [he, Option.elim_some] at hst
      have heq := Event.addr?_toVariable? he
      rw [← heq] at haddr ⊢
      exact Chronological.applyVariable (h.ranges v) (hl.olderRanges v) e' haddr st hst

end Step

/-- The addresses of events, in order. -/
def addresses (events : List Event) : List Address := events.filterMap (·.addr?)

theorem addresses_concat (events : List Event) (e : Event) :
    addresses (events ++ [e]) = addresses events ++ e.addr?.toList := by
  rw [addresses, List.filterMap_append]
  cases h : e.addr? <;> simp [addresses, h]

/-- If the addresses of a run are in order, then so are all the ranges. -/
theorem run_allChronological {events : List Event} (hordered : Ordered events) :
    AllChronological (addresses events) (run events) := by
  induction events using List.reverseRecOn with
  | nil => exact ⟨fun s => by simp [empty, spansOf, chronological_nil], fun v st h => by
      simp [empty, storage?] at h⟩
  | append_singleton events e ih =>
    rw [Ordered, ← addresses, addresses_concat] at hordered
    obtain ⟨hbefore, -, hlast⟩ := List.pairwise_append.1 hordered
    rw [run_append_singleton, addresses_concat]
    refine (ih hbefore).apply (tidy_run events) e ?_
    rintro addr haddr b hb
    exact hlast b hb addr (by simp [haddr])

/-! ## Places -/

/-- The place of an event that starts a range of the variable, unless a fixed slot makes the tracker
ignore it. -/
def acceptedPlace? (v : EntryId) (l : Lifetimes) : Event → Option Place
  | .startRange var _ place =>
      if var = v ∧ (l.storage? v).all (!·.isFixed) then some place else none
  | _ => none

/-- The places that are accepted for the variable in the course of events, in order. -/
def acceptedPlaces (v : EntryId) (l : Lifetimes) : List Event → List Place
  | [] => []
  | e :: events => (acceptedPlace? v l e).toList ++ acceptedPlaces v (l.apply e) events

/-- One more event makes a variable accept one more place, or none. -/
theorem acceptedPlaces_concat (v : EntryId) (l : Lifetimes) (events : List Event) (e : Event) :
    acceptedPlaces v l (events ++ [e]) =
      acceptedPlaces v l events ++ (acceptedPlace? v (events.foldl apply l) e).toList := by
  induction events generalizing l with
  | nil => simp [acceptedPlaces]
  | cons e' events ih => simp [acceptedPlaces, ih]

/-- To end a range does not move it. -/
theorem places_endNewestRange (addr : Address) (st : Storage) :
    (endNewestRange addr st).places = st.places := by
  rcases st with (_ | ⟨⟨⟨start, _ | stop⟩, place⟩, ranges⟩) | ⟨offset, place⟩ <;> rfl

/-- The ranges of the variable, if it has no fixed slot, are at these places. -/
def LivesAt (places : List Place) (storage : Option Storage) : Prop :=
  (storage.getD (.ranges [])).isFixed = false → (storage.getD (.ranges [])).places = places

/-- To end a range changes none of the places. -/
theorem LivesAt.map_endNewestRange {places : List Place} {storage : Option Storage}
    (h : LivesAt places storage) (addr : Address) :
    LivesAt places (storage.map (endNewestRange addr)) := by
  rcases storage with _ | st
  · exact h
  · intro hfixed
    have hsame : (endNewestRange addr st).isFixed = st.isFixed := by
      rcases st with (_ | ⟨⟨⟨start, _ | stop⟩, place⟩, ranges⟩) | ⟨offset, place⟩ <;> rfl
    rw [Option.map_some, Option.getD_some, hsame] at hfixed
    rw [Option.map_some, Option.getD_some, places_endNewestRange]
    exact h hfixed

/-- A place is accepted if there is no fixed slot, and then it is that of a new range. -/
theorem LivesAt.startRange {places : List Place} {storage : Option Storage}
    (h : LivesAt places storage) (addr : Address) (place : Place) :
    LivesAt (places ++ if storage.all (!·.isFixed) then [place] else [])
      (VariableEvent.apply storage (.started addr place)) := by
  rcases storage with _ | ranges | ⟨offset, fixed⟩
  · exact fun _ => congrArg (· ++ [place]) (h rfl)
  · intro _
    rw [← h rfl]
    rcases ranges with _ | ⟨⟨⟨start, _ | stop⟩, old⟩, ranges⟩ <;>
      simp [VariableEvent.apply, endNewestRange, pushRange, Storage.places, Storage.newestFirst,
        Storage.isFixed]
  · intro hfixed
    cases hfixed

/-- One more event adds the place that is accepted, if one is. -/
theorem LivesAt.apply {places : List Place} {l : Lifetimes} {v : EntryId} (hl : Consistent l)
    (h : LivesAt places (l.storage? v)) {e : Event} (he : e ≠ .clear) :
    LivesAt (places ++ (acceptedPlace? v l e).toList) ((l.apply e).storage? v) := by
  rw [storage?_apply hl]
  cases e with
  | startRange var addr place =>
    by_cases hv : var = v
    · subst hv
      have hstart := h.startRange addr place
      have haccepted : (acceptedPlace? var l (.startRange var addr place)).toList =
          if (l.storage? var).all (!·.isFixed) then [place] else [] := by
        simp only [acceptedPlace?, true_and]
        split <;> rfl
      rw [Event.toVariable?, if_pos rfl, haccepted]
      exact hstart
    · simpa [Event.toVariable?, acceptedPlace?, hv] using h
  | endRange var addr =>
    by_cases hv : var = v
    · have hnone : acceptedPlace? v l (.endRange var addr) = none := rfl
      rw [Event.toVariable?, if_pos hv, hnone, Option.toList_none, List.append_nil]
      exact h.map_endNewestRange addr
    · simpa [Event.toVariable?, acceptedPlace?, hv] using h
  | setFixed var offset place =>
    by_cases hv : var = v
    · simp [Event.toVariable?, hv, VariableEvent.apply, LivesAt, Storage.isFixed]
    · simpa [Event.toVariable?, acceptedPlace?, hv] using h
  | endFunction addr =>
    have hnone : acceptedPlace? v l (.endFunction addr) = none := rfl
    rw [hnone, Option.toList_none, List.append_nil]
    exact h.map_endNewestRange addr
  | clear => exact absurd rfl he
  | _ => simpa [Event.toVariable?, acceptedPlace?] using h

/-- After a run without a clearing, the ranges of a variable are at the accepted places. -/
theorem run_livesAt (v : EntryId) {events : List Event} (hclear : ∀ e ∈ events, e ≠ .clear) :
    LivesAt (acceptedPlaces v empty events) ((run events).storage? v) := by
  induction events using List.reverseRecOn with
  | nil => simp [acceptedPlaces, empty, storage?, LivesAt, Storage.places, Storage.newestFirst]
  | append_singleton events e ih =>
    have hbefore := ih fun e' he' => hclear e' (List.mem_append_left _ he')
    rw [acceptedPlaces_concat, run_append_singleton]
    have he : e ≠ .clear := hclear e (List.mem_append_right _ List.mem_cons_self)
    exact hbefore.apply (consistent_run events) he

/-! ## Runs -/

/-- The events since the table was cleared for the last time. -/
def sinceClear (events : List Event) : List Event := events.rtakeWhile (· != .clear)

theorem sinceClear_ne_clear (events : List Event) : ∀ e ∈ sinceClear events, e ≠ .clear := by
  rintro e he
  simpa using List.mem_rtakeWhile_imp he

/-- What came before the table was cleared has left nothing behind. -/
theorem run_sinceClear (events : List Event) : run (sinceClear events) = run events := by
  induction events using List.reverseRecOn with
  | nil => rfl
  | append_singleton events e ih =>
    rw [sinceClear, List.rtakeWhile_concat]
    split
    · rw [run_append_singleton, run_append_singleton, ← ih, sinceClear]
    · next he =>
      obtain rfl : e = .clear := by simpa using he
      rw [run_append_singleton]
      rfl

/-- If addresses never decrease after the table was last cleared, then the ranges of each scope and
of each variable without a fixed slot are intervals one after the other, none of them later than the
last event, and the ranges of a variable are at the places that were accepted for it, in order. -/
theorem run_timeline (events : List Event) (h : Ordered (sinceClear events)) :
    let since := sinceClear events
    let last := (addresses since).getLast?
    (∀ s, Timeline last ((run events).spansOf s).reverse) ∧
    ∀ v rs, (run events).storage? v = some (.ranges rs) →
      Timeline last (rs.map (·.span)).reverse ∧
        (rs.map (·.place)).reverse = acceptedPlaces v empty since := by
  intro since last
  have hall : AllChronological (addresses since) (run events) := by
    rw [← run_sinceClear]
    exact run_allChronological h
  refine ⟨fun s => (hall.spans s).timeline h, fun v rs hrs => ?_⟩
  refine ⟨(hall.ranges v _ hrs).timeline h, ?_⟩
  have hplaces := run_livesAt v (sinceClear_ne_clear events)
  rw [run_sinceClear, hrs] at hplaces
  exact hplaces rfl

/-- Before the table is cleared, addresses go down.  Afterwards a variable moves while a scope is
open, and the function ends at once. -/
theorem run_timeline_moved :
    let events : List Event :=
      [.openScope ⟨1⟩ ⟨9⟩, .closeScope ⟨1⟩ ⟨2⟩, .clear, .openScope ⟨1⟩ ⟨4⟩,
        .startRange ⟨7⟩ ⟨4⟩ (.register 3), .setFixed ⟨8⟩ 16 (.frame 16), .openScope ⟨1⟩ ⟨6⟩,
        .startRange ⟨7⟩ ⟨6⟩ (.stack 8), .startRange ⟨8⟩ ⟨6⟩ (.register 3), .endFunction ⟨6⟩]
    let first : LiveRange := ⟨⟨⟨4⟩, some ⟨6⟩⟩, .register 3⟩
    let second : LiveRange := ⟨⟨⟨6⟩, some ⟨6⟩⟩, .stack 8⟩
    Ordered (sinceClear events) ∧ (run events).storage? ⟨7⟩ = some (.ranges [second, first]) ∧
      Timeline (some ⟨6⟩) [first.span, second.span] ∧
      [first.place, second.place] = acceptedPlaces ⟨7⟩ empty (sinceClear events) := by
  intro events first second
  have h : Ordered (sinceClear events) := by decide +kernel
  have hranges : (run events).storage? ⟨7⟩ = some (.ranges [second, first]) := by decide +kernel
  have hlast : (addresses (sinceClear events)).getLast? = some ⟨6⟩ := by decide +kernel
  obtain ⟨-, hvariables⟩ := run_timeline events h
  obtain ⟨htimeline, hplaces⟩ := hvariables ⟨7⟩ [second, first] hranges
  rw [hlast] at htimeline
  exact ⟨h, hranges, htimeline, hplaces⟩

end Lifetimes

end DebugInfo
