import Mathlib.Order.WithBot
import DebugInfo.Proofs.Lifetimes.OpenRanges

/-!
# Well-nested scopes

If addresses never decrease and a scope is opened again or closed only while it is the innermost open
one, then ranges are nested as brackets are: of any two, of one scope or of two, one ends before the
other starts, or one contains the other.

No event compares the ranges of two scopes.  What carries the proof is the order of the open scopes:
the range of an inner one does not start before those of the scopes around it, so it may end first.
-/

namespace DebugInfo

/-! ## Two ranges -/

namespace Span

/-- Where the range ends; an open range ends after every address. -/
def finish (a : Span) : WithTop Nat := a.stop.elim ⊤ fun stop => .some stop.raw

/-- The range ends where the other one starts, or before. -/
def Before (a b : Span) : Prop := a.finish ≤ .some b.start.raw

/-- The other range lies within this one. -/
def Contains (a b : Span) : Prop := a.start ≤ b.start ∧ b.finish ≤ a.finish

/-- The ranges are apart, or one of them contains the other. -/
def Laminar (a b : Span) : Prop := a.Before b ∨ b.Before a ∨ a.Contains b ∨ b.Contains a

/-- No address of the range is later than `now`. -/
structure Until (now : Address) (a : Span) : Prop where
  start : a.start ≤ now
  stop : ∀ stop, a.stop = some stop → stop ≤ now

variable {a b : Span} {now addr : Address}

/-- A range has no finish exactly if it is open. -/
theorem finish_eq_top_iff : a.finish = ⊤ ↔ a.isOpen = true := by
  obtain ⟨start, _ | stop⟩ := a <;> simp [finish, isOpen]

/-- The order of the two ranges does not matter. -/
theorem Laminar.symm (h : a.Laminar b) : b.Laminar a := by
  rcases h with h | h | h | h
  · exact .inr (.inl h)
  · exact .inl h
  · exact .inr (.inr (.inr h))
  · exact .inr (.inr (.inl h))

theorem Until.mono (h : a.Until now) (hnow : now ≤ addr) : a.Until addr :=
  ⟨Nat.le_trans h.start hnow, fun stop hstop => Nat.le_trans (h.stop stop hstop) hnow⟩

/-- A range that has ended did so before now. -/
theorem Until.finish_le (h : a.Until now) (hended : a.isOpen = false) :
    a.finish ≤ .some now.raw := by
  obtain ⟨start, _ | stop⟩ := a
  · cases hended
  · exact WithTop.coe_le_coe.2 (h.stop stop rfl)

/-- The end of the range, once it has ended, is the earlier one of its own and `now`. -/
theorem Until.le_finish_endAt_iff (h : a.Until now) {x : WithTop Nat} :
    x ≤ (a.endAt now).finish ↔ x ≤ a.finish ∧ x ≤ .some now.raw := by
  cases hopen : a.isOpen with
  | true =>
    have hend : (a.endAt now).finish = .some now.raw := by
      obtain ⟨start, _ | stop⟩ := a
      · rfl
      · cases hopen
    rw [hend, finish_eq_top_iff.2 hopen]
    exact (and_iff_right le_top).symm
  | false =>
    rw [endAt_of_not_isOpen hopen]
    exact (and_iff_left_of_imp fun hx => hx.trans (h.finish_le hopen)).symm

/-- To end a range makes it no longer. -/
theorem Until.finish_endAt_le (h : a.Until now) : (a.endAt now).finish ≤ a.finish :=
  (h.le_finish_endAt_iff.1 le_rfl).1

/-- To end two ranges now keeps the order of their ends. -/
theorem Until.finish_endAt_mono (ha : a.Until now) (hb : b.Until now) (h : b.finish ≤ a.finish) :
    (b.endAt now).finish ≤ (a.endAt now).finish := by
  obtain ⟨hle, hnow⟩ := hb.le_finish_endAt_iff.1 le_rfl
  exact ha.le_finish_endAt_iff.2 ⟨hle.trans h, hnow⟩

/-- A range that is ended now does not go on. -/
theorem Until.endAt (h : a.Until now) : (a.endAt now).Until now := by
  refine ⟨h.start, fun stop hstop => ?_⟩
  rcases Option.or_eq_some_iff.1 hstop with hstop | ⟨-, hstop⟩
  · exact h.stop stop hstop
  · cases hstop
    exact Nat.le_refl now.raw

/-- Both ranges end, if they are open. -/
theorem Laminar.endAt (h : a.Laminar b) (ha : a.Until now) (hb : b.Until now) :
    (a.endAt now).Laminar (b.endAt now) := by
  rcases h with h | h | ⟨hstart, h⟩ | ⟨hstart, h⟩
  · exact .inl (ha.finish_endAt_le.trans h)
  · exact .inr (.inl (hb.finish_endAt_le.trans h))
  · exact .inr (.inr (.inl ⟨hstart, ha.finish_endAt_mono hb h⟩))
  · exact .inr (.inr (.inr ⟨hstart, hb.finish_endAt_mono ha h⟩))

/-- One of the ranges ends.  If both are open, it must be the inner one. -/
theorem Laminar.endAt_left (h : a.Laminar b) (ha : a.Until now) (hb : b.Until now)
    (hinner : a.isOpen = true → b.isOpen = true → b.start ≤ a.start) :
    (a.endAt now).Laminar b := by
  cases hopen : b.isOpen with
  | false =>
    have hb' : b.endAt now = b := endAt_of_not_isOpen hopen
    rw [← hb']
    exact h.endAt ha hb
  | true =>
    have htop := finish_eq_top_iff.2 hopen
    cases hopen' : a.isOpen with
    | true => exact .inr (.inr (.inr ⟨hinner hopen' hopen, by rw [htop]; exact le_top⟩))
    | false => rwa [endAt_of_not_isOpen hopen']

/-- A new range starts after what there is, or within it. -/
theorem Until.laminar_open (h : a.Until now) : a.Laminar ⟨now, none⟩ := by
  cases hopen : a.isOpen with
  | true =>
    have htop := finish_eq_top_iff.2 hopen
    exact .inr (.inr (.inl ⟨h.start, by rw [htop]; exact le_top⟩))
  | false => exact .inl (h.finish_le hopen)

end Span

namespace Lifetimes

/-! ## Well-nested runs -/

def Event.addr? : Event → Option Address
  | .openScope _ addr | .closeScope _ addr | .startRange _ addr _ | .endRange _ addr
  | .endFunction addr => some addr
  | .setFixed _ _ _ | .clear => none

/-- Addresses never decrease. -/
def Ordered (events : List Event) : Prop := (events.filterMap (·.addr?)).Pairwise (· ≤ ·)

/-- The open scopes after an event, the one that was opened last first. -/
def Event.nest (stack : List EntryId) : Event → List EntryId
  | .openScope scope _ => scope :: stack.filter (· != scope)
  | .closeScope scope _ => stack.filter (· != scope)
  | .endFunction _ | .clear => []
  | _ => stack

/-- Of the open scopes, none but the innermost one is opened again or closed. -/
def Event.Nests (stack : List EntryId) : Event → Prop
  | .openScope scope _ | .closeScope scope _ => scope ∈ stack → stack.head? = some scope
  | _ => True

/-- The events are well nested if these scopes are open before them. -/
def WellNested : List EntryId → List Event → Prop
  | _, [] => True
  | stack, e :: events => e.Nests stack ∧ WellNested (e.nest stack) events

instance (events : List Event) : Decidable (Ordered events) :=
  inferInstanceAs (Decidable (List.Pairwise _ _))

instance (stack : List EntryId) (e : Event) : Decidable (e.Nests stack) := by
  cases e <;> unfold Event.Nests <;> infer_instance

instance decidableWellNested (stack : List EntryId) :
    (events : List Event) → Decidable (WellNested stack events)
  | [] => .isTrue trivial
  | e :: events =>
    have := decidableWellNested (e.nest stack) events
    inferInstanceAs (Decidable (_ ∧ _))

/-! ## Nested histories -/

/-- No range is later than `now`, the open scopes are on the stack with the inner ones first, and any
two ranges are laminar. -/
structure Nesting (stack : List EntryId) (now : Address) (history : EntryId → List Span) : Prop where
  older : ∀ s, OlderEnded (history s)
  mem_stack : ∀ s, ∀ a ∈ history s, a.isOpen = true → s ∈ stack
  reached : ∀ s, ∀ a ∈ history s, a.Until now
  inner : stack.Pairwise fun s s' => ∀ a ∈ history s, ∀ b ∈ history s',
    a.isOpen = true → b.isOpen = true → b.start ≤ a.start
  laminar : ∀ s s', ∀ a ∈ history s, ∀ b ∈ history s', a.Laminar b

theorem nesting_nil (now : Address) : Nesting [] now fun _ => [] where
  older _ _ h := nomatch h
  mem_stack _ _ h := nomatch h
  reached _ _ h := nomatch h
  inner := .nil
  laminar _ _ _ h := nomatch h

/-- The newest ranges of some scopes end. -/
def endThose (p : EntryId → Bool) (addr : Address) (history : EntryId → List Span) :
    EntryId → List Span :=
  fun s => if p s then endNewest addr (history s) else history s

/-- A scope gets a new range. -/
def push (scope : EntryId) (addr : Address) (history : EntryId → List Span) :
    EntryId → List Span :=
  fun s => if scope = s then ⟨addr, none⟩ :: history s else history s

/-- A range that is there after another has begun is that one or was there before. -/
theorem mem_push {scope s : EntryId} {addr : Address} {history : EntryId → List Span} {a : Span}
    (ha : a ∈ push scope addr history s) :
    (scope = s ∧ a = ⟨addr, none⟩) ∨ a ∈ history s := by
  unfold push at ha
  split at ha
  · next hs => exact (List.mem_cons.1 ha).imp_left fun ha => ⟨hs, ha⟩
  · exact .inr ha

namespace Nesting

variable {stack : List EntryId} {now addr : Address} {history : EntryId → List Span}
  (h : Nesting stack now history)
include h

theorem mono (hnow : now ≤ addr) : Nesting stack addr history where
  older := h.older
  mem_stack := h.mem_stack
  reached s a ha := (h.reached s a ha).mono hnow
  inner := h.inner
  laminar := h.laminar

/-- A range that is there afterwards was there before, or is what became of one by ending it. -/
theorem mem_endThose {p : EntryId → Bool} {s : EntryId} {a : Span}
    (ha : a ∈ endThose p now history s) :
    (p s = true ∧ ∃ old ∈ history s, a = old.endAt now) ∨ (p s = false ∧ a ∈ history s) := by
  unfold endThose at ha
  split at ha
  · next hp =>
    rw [(h.older s).endNewest_eq] at ha
    obtain ⟨old, hold, rfl⟩ := List.mem_map.1 ha
    exact .inl ⟨hp, old, hold, rfl⟩
  · next hp => exact .inr ⟨Bool.eq_false_iff.2 hp, ha⟩

/-- A range that is still open is one that was not ended. -/
theorem mem_of_mem_endThose {p : EntryId → Bool} {s : EntryId} {a : Span}
    (ha : a ∈ endThose p now history s) (hopen : a.isOpen = true) :
    p s = false ∧ a ∈ history s := by
  rcases h.mem_endThose ha with ⟨-, old, -, rfl⟩ | hkept
  · rw [Span.isOpen_endAt] at hopen
    cases hopen
  · exact hkept

/-- Ranges may end if no scope that stays open is within one of those that are ended. -/
theorem ended {p : EntryId → Bool}
    (hinner : ∀ s s', p s = true → p s' = false → ∀ a ∈ history s, ∀ b ∈ history s',
      a.isOpen = true → b.isOpen = true → b.start ≤ a.start) :
    Nesting (stack.filter fun s => !p s) now (endThose p now history) where
  older s := by
    unfold endThose
    split
    · exact olderEnded_endNewest (h.older s) now
    · exact h.older s
  mem_stack s a ha hopen := by
    obtain ⟨hp, ha⟩ := h.mem_of_mem_endThose ha hopen
    exact List.mem_filter.2 ⟨h.mem_stack s a ha hopen, by rw [hp]; rfl⟩
  reached s a ha := by
    rcases h.mem_endThose ha with ⟨-, old, hold, rfl⟩ | ⟨-, ha⟩
    · exact (h.reached s old hold).endAt
    · exact h.reached s a ha
  inner := by
    -- What is still open was not ended, so it was there before.
    refine (h.inner.filter _).imp fun hss a ha b hb hopen hopen' => ?_
    obtain ⟨-, ha⟩ := h.mem_of_mem_endThose ha hopen
    obtain ⟨-, hb⟩ := h.mem_of_mem_endThose hb hopen'
    exact hss a ha b hb hopen hopen'
  laminar s s' a ha b hb := by
    -- Which range is the inner one matters only if one of them is ended and the other is not.
    rcases h.mem_endThose ha with ⟨hp, a, hold, rfl⟩ | ⟨hp, hold⟩ <;>
      rcases h.mem_endThose hb with ⟨hp', b, hold', rfl⟩ | ⟨hp', hold'⟩ <;>
      have hab := h.laminar s s' a hold b hold' <;>
      have hbounda := h.reached s a hold <;>
      have hboundb := h.reached s' b hold'
    · exact hab.endAt hbounda hboundb
    · exact hab.endAt_left hbounda hboundb (hinner s s' hp hp' a hold b hold')
    · exact (hab.symm.endAt_left hboundb hbounda (hinner s' s hp' hp b hold' a hold)).symm
    · exact hab

/-- A scope that is not open gets a new range, within all that are open. -/
theorem pushed {scope : EntryId} (hended : ∀ a ∈ history scope, a.isOpen = false)
    (hscope : scope ∉ stack) : Nesting (scope :: stack) now (push scope now history) where
  older s := by
    unfold push
    split
    · next hs => exact hs ▸ hended
    · exact h.older s
  mem_stack s a ha hopen := by
    rcases mem_push ha with ⟨rfl, -⟩ | ha
    · exact List.mem_cons_self
    · exact List.mem_cons_of_mem _ (h.mem_stack s a ha hopen)
  reached s a ha := by
    rcases mem_push ha with ⟨-, rfl⟩ | ha
    · exact ⟨Nat.le_refl now.raw, fun stop hstop => nomatch hstop⟩
    · exact h.reached s a ha
  inner := by
    -- The old ranges of the scope have ended, so its open range is the new one, which starts last.
    refine List.pairwise_cons.2 ⟨fun s' hs' a ha b hb hopen hopen' => ?_, ?_⟩
    · rcases mem_push ha with ⟨-, rfl⟩ | ha
      · rcases mem_push hb with ⟨-, rfl⟩ | hb
        · exact Nat.le_refl now.raw
        · exact (h.reached s' b hb).start
      · rw [hended a ha] at hopen
        cases hopen
    · refine h.inner.imp_of_mem fun hs hs' hss a ha b hb => ?_
      rcases mem_push ha with ⟨rfl, -⟩ | ha
      · exact absurd hs hscope
      · rcases mem_push hb with ⟨rfl, -⟩ | hb
        · exact absurd hs' hscope
        · exact hss a ha b hb
  laminar s s' a ha b hb := by
    rcases mem_push ha with ⟨-, rfl⟩ | ha <;> rcases mem_push hb with ⟨-, rfl⟩ | hb
    · exact .inr (.inr (.inl ⟨Nat.le_refl now.raw, le_rfl⟩))
    · exact (h.reached s' b hb).laminar_open.symm
    · exact (h.reached s a ha).laminar_open
    · exact h.laminar s s' a ha b hb

/-- The innermost scope, if it is that one, ends its range. -/
theorem endScope {scope : EntryId} (hscope : scope ∈ stack → stack.head? = some scope) :
    Nesting (stack.filter (· != scope)) now (endThose (· == scope) now history) := by
  refine h.ended fun s s' hs hs' a ha b hb hopen hopen' => ?_
  obtain rfl : s = scope := beq_iff_eq.1 hs
  obtain ⟨rest, rfl⟩ := List.head?_eq_some_iff.1 (hscope (h.mem_stack s a ha hopen))
  rcases List.mem_cons.1 (h.mem_stack s' b hb hopen') with rfl | hmem
  · simp at hs'
  · exact List.rel_of_pairwise_cons h.inner hmem a ha b hb hopen hopen'

end Nesting

/-! ## Runs -/

/-- What an event makes of all histories. -/
theorem spansOf_apply_eq {l : Lifetimes} (h : Consistent l) (e : Event) :
    (l.apply e).spansOf = match e with
      | .openScope scope addr => push scope addr (endThose (· == scope) addr l.spansOf)
      | .closeScope scope addr => endThose (· == scope) addr l.spansOf
      | .endFunction addr => endThose (fun _ => true) addr l.spansOf
      | .clear => fun _ => []
      | _ => l.spansOf := by
  funext s
  rw [spansOf_apply h]
  cases e with
  | openScope scope addr | closeScope scope addr =>
    by_cases hs : scope = s
    · subst hs
      simp [Event.toScope?, ScopeEvent.apply, push, endThose]
    · simp [Event.toScope?, push, endThose, hs, Ne.symm hs]
  | _ => rfl

/-- If the ranges are nested and the event nests, then the ranges are nested afterwards. -/
theorem Nesting.apply {stack : List EntryId} {now : Address} {l : Lifetimes} (hl : Consistent l)
    (h : Nesting stack now l.spansOf) {e : Event} (he : e.Nests stack)
    (hnow : ∀ addr, e.addr? = some addr → now ≤ addr) :
    Nesting (e.nest stack) (e.addr?.getD now) (l.apply e).spansOf := by
  rw [spansOf_apply_eq hl]
  cases e with
  | openScope scope addr =>
    have hended := (h.mono (hnow addr rfl)).endScope he
    refine hended.pushed (fun a ha => ?_) (by simp)
    rw [endThose, if_pos (beq_self_eq_true scope)] at ha
    exact ended_endNewest (h.older scope) addr a ha
  | closeScope scope addr => exact (h.mono (hnow addr rfl)).endScope he
  | startRange var addr place => exact h.mono (hnow addr rfl)
  | endRange var addr => exact h.mono (hnow addr rfl)
  | setFixed var offset place => exact h
  | endFunction addr =>
    have hended := (h.mono (hnow addr rfl)).ended fun s s' (_ : true = true) hs' => nomatch hs'
    rwa [Bool.not_true, List.filter_false] at hended
  | clear => exact nesting_nil now

/-- The tracker keeps the open scopes in the order in which they were opened. -/
theorem openScopes_apply {l : Lifetimes} (h : Tidy l) {e : Event} (he : e.Nests l.openScopes) :
    (l.apply e).openScopes = e.nest l.openScopes := by
  cases e with
  | openScope scope addr =>
    show l.openScopes.insert scope = scope :: l.openScopes.filter (· != scope)
    by_cases hmem : scope ∈ l.openScopes
    · obtain ⟨rest, hrest⟩ := List.head?_eq_some_iff.1 (he hmem)
      have hnodup := h.nodupScopes
      rw [List.insert_of_mem hmem]
      rw [hrest] at hnodup ⊢
      rw [List.filter_cons_of_neg (by simp), List.filter_eq_self.2]
      rintro s hs
      have hne : scope ≠ s := (List.pairwise_cons.1 hnodup).1 s hs
      simpa using hne.symm
    · rw [List.insert_of_not_mem hmem, List.filter_eq_self.2]
      intro s hs
      have hne : s ≠ scope := fun heq => hmem (heq ▸ hs)
      simpa using hne
  | startRange var addr place => exact (spans_startRange l addr var place).2
  | _ => rfl

/-- If all events nest, then the open scopes are the stack, and the ranges stay nested. -/
theorem nesting_foldl_apply {l : Lifetimes} {now : Address} (hl : Tidy l)
    (h : Nesting l.openScopes now l.spansOf) {events : List Event}
    (hordered : (now :: events.filterMap (·.addr?)).Pairwise (· ≤ ·))
    (hnested : WellNested l.openScopes events) :
    (events.foldl apply l).openScopes = events.foldl Event.nest l.openScopes ∧
      ∃ now, Nesting (events.foldl apply l).openScopes now (events.foldl apply l).spansOf := by
  induction events generalizing l now with
  | nil => exact ⟨rfl, now, h⟩
  | cons e events ih =>
    obtain ⟨he, hnested⟩ := hnested
    have hopen := openScopes_apply hl he
    -- The addresses to come are no earlier than that of the event, if it has one.
    have hstep : (∀ addr, e.addr? = some addr → now ≤ addr) ∧
        (e.addr?.getD now :: events.filterMap (·.addr?)).Pairwise (· ≤ ·) := by
      cases haddr : e.addr? with
      | none =>
        rw [List.filterMap_cons_none haddr] at hordered
        exact ⟨fun _ h => (nomatch h), hordered⟩
      | some addr =>
        rw [List.filterMap_cons_some haddr] at hordered
        obtain ⟨hnow, hrest⟩ := List.pairwise_cons.1 hordered
        refine ⟨fun addr' heq => ?_, hrest⟩
        cases heq
        exact hnow addr List.mem_cons_self
    have hnesting := h.apply hl.toConsistent he hstep.1
    rw [← hopen] at hnesting hnested
    have hrest := ih (hl.apply e) hnesting hstep.2 hnested
    rwa [hopen] at hrest

/-- If addresses never decrease and only the innermost open scope is opened again or closed, then the
open scopes are a stack, and any two ranges are laminar. -/
theorem run_laminar (events : List Event) (hordered : Ordered events)
    (hnested : WellNested [] events) :
    (run events).openScopes = events.foldl Event.nest [] ∧
      ∀ s s', ∀ a ∈ (run events).spansOf s, ∀ b ∈ (run events).spansOf s', a.Laminar b := by
  have hempty : Nesting empty.openScopes ⟨0⟩ empty.spansOf := by
    have hspans : empty.spansOf = fun _ => [] := by
      funext s
      simp [empty, spansOf]
    rw [hspans]
    exact nesting_nil ⟨0⟩
  have hfirst : (⟨0⟩ :: events.filterMap (·.addr?)).Pairwise (· ≤ ·) :=
    List.pairwise_cons.2 ⟨fun addr _ => Nat.zero_le addr.raw, hordered⟩
  obtain ⟨hopen, now, h⟩ := nesting_foldl_apply tidy_empty hempty hfirst hnested
  exact ⟨hopen, h.laminar⟩

/-- A block is left and entered again inside another one, which is left open when the function ends;
the next function starts at that address. -/
theorem run_laminar_reentered :
    let events : List Event :=
      [.openScope ⟨1⟩ ⟨4⟩, .openScope ⟨2⟩ ⟨4⟩, .startRange ⟨7⟩ ⟨5⟩ (.register 3),
        .openScope ⟨2⟩ ⟨6⟩, .closeScope ⟨2⟩ ⟨8⟩, .closeScope ⟨2⟩ ⟨8⟩, .openScope ⟨2⟩ ⟨9⟩,
        .endFunction ⟨12⟩, .openScope ⟨3⟩ ⟨12⟩]
    let outer : Span := ⟨⟨4⟩, some ⟨12⟩⟩
    let inner : Span := ⟨⟨6⟩, some ⟨8⟩⟩
    Ordered events ∧ WellNested [] events ∧ (run events).openScopes = [⟨3⟩] ∧
      outer ∈ (run events).spansOf ⟨1⟩ ∧ inner ∈ (run events).spansOf ⟨2⟩ ∧ outer.Laminar inner := by
  intro events outer inner
  have hordered : Ordered events := by decide
  have hnested : WellNested [] events := by decide
  have houter : outer ∈ (run events).spansOf ⟨1⟩ := by decide +kernel
  have hinner : inner ∈ (run events).spansOf ⟨2⟩ := by decide +kernel
  obtain ⟨hopen, hlaminar⟩ := run_laminar events hordered hnested
  exact ⟨hordered, hnested, hopen, houter, hinner, hlaminar ⟨1⟩ ⟨2⟩ outer houter inner hinner⟩

end Lifetimes

end DebugInfo
