import DebugInfo.CompilationUnit.Operation
import DebugInfo.Proofs.Definitions.Cases

/-!
# Executing operations on a unit

An operation takes a unit to an answer, or a failure, and a unit.  What it makes of a unit is said
by a condition on the unit before, one on the answer and the unit after, and one on the unit that
is left by a failure: `Ensures` has one rule for each way in which operations are put together, so
that nothing else has to look into the monad they are written in.
-/

namespace DebugInfo.CompilationUnit

variable {α β : Type}

/-- From a unit with `P`, the operation answers with `Q` or fails with `E`. -/
def Ensures (P : CompilationUnit → Prop) (m : UnitM α) (Q : α → CompilationUnit → Prop)
    (E : CompilationUnit → Prop) : Prop :=
  ∀ u, P u → match m u with
    | (.ok a, u') => Q a u'
    | (.error _, u') => E u'

/-- An operation on definitions succeeds if it does so on the table. -/
theorem onDefinitions_eq_ok_iff
    {f : Definitions → IdSupply → Except TableError (α × IdSupply × Definitions)} {a : α}
    {u u' : CompilationUnit} :
    onDefinitions f u = (.ok a, u') ↔ ∃ ids definitions,
      f u.definitions u.ids = .ok (a, ids, definitions) ∧ u' = { u with ids, definitions } := by
  unfold onDefinitions
  rcases f u.definitions u.ids with e | ⟨a', ids, g⟩
  · exact iff_of_false (fun h => nomatch h) (by rintro ⟨_, _, ⟨⟩, _⟩)
  · constructor
    · intro h
      cases h
      exact ⟨ids, g, rfl, rfl⟩
    · rintro ⟨_, _, h, rfl⟩
      cases h
      rfl

/-! ## Failing -/

section Failing

variable {u u' : CompilationUnit} {e e' : TableError}

theorem error_eq_error_iff :
    ((.error e', u) : Except TableError α × CompilationUnit) = (.error e, u') ↔
      e' = e ∧ u' = u := by
  rw [Prod.mk.injEq, Except.error.injEq]
  exact and_congr_right fun _ => eq_comm

theorem ok_ne_error {a : α} : ((.ok a, u) : Except TableError α × CompilationUnit) ≠ (.error e, u') :=
  fun h => nomatch h

/-- Where the table refuses, the unit is left as it is. -/
theorem onDefinitions_eq_error_iff
    {f : Definitions → IdSupply → Except TableError (α × IdSupply × Definitions)} :
    onDefinitions f u = (.error e, u') ↔ f u.definitions u.ids = .error e ∧ u' = u := by
  unfold onDefinitions
  rcases f u.definitions u.ids with e' | ⟨a, ids, g⟩
  · rw [Except.error.injEq]
    exact error_eq_error_iff
  · exact iff_of_false ok_ne_error fun h => nomatch h.1

/-- An operation on the locals that fails leaves the unit as it was. -/
theorem onLocals_eq_error_iff
    {f : Locals → IdSupply → Except TableError (α × IdSupply × Locals)} :
    onLocals f u = (.error e, u') ↔ f u.locals u.ids = .error e ∧ u' = u := by
  unfold onLocals
  rcases f u.locals u.ids with e' | ⟨a, ids, l⟩
  · rw [Except.error.injEq]
    exact error_eq_error_iff
  · exact iff_of_false ok_ne_error fun h => nomatch h.1

end Failing

/-! ## Conditions -/

namespace Ensures

variable {P : CompilationUnit → Prop} {Q : α → CompilationUnit → Prop} {E : CompilationUnit → Prop}

theorem pure {a : α} (h : ∀ u, P u → Q a u) : Ensures P (Pure.pure a) Q E := h

/-- A failure ends the operation where it happens. -/
theorem bind {m : UnitM α} {f : α → UnitM β} {R : β → CompilationUnit → Prop}
    (hm : Ensures P m Q E) (hf : ∀ a, Ensures (Q a) (f a) R E) : Ensures P (m >>= f) R E := by
  intro u hu
  have hbind : (m >>= f) u = ExceptT.bindCont f (m u).1 (m u).2 := rfl
  have hpost := hm u hu
  rw [hbind]
  revert hpost
  rcases m u with ⟨e | a, u'⟩
  · exact id
  · exact hf a u'

theorem lift {m : StateM CompilationUnit α} (h : ∀ u, P u → Q (m u).1 (m u).2) :
    Ensures P (liftM m) Q E := h

theorem modify {f : CompilationUnit → CompilationUnit} (h : ∀ u, P u → E (f u)) :
    Ensures P (modify f : UnitM PUnit) (fun _ => E) E := h

/-- More may be known before, and less afterwards. -/
theorem weaken {P' : CompilationUnit → Prop} {Q' : α → CompilationUnit → Prop} {m : UnitM α}
    (hm : Ensures P m Q E) (hP : ∀ u, P' u → P u) (hQ : ∀ a u, Q a u → Q' a u) :
    Ensures P' m Q' E := by
  intro u hu
  have hpost := hm u (hP u hu)
  revert hpost
  rcases m u with ⟨e | a, u'⟩
  · exact id
  · exact hQ a u'

theorem lift_bind {m : StateM CompilationUnit α} {f : α → StateM CompilationUnit β}
    {R : β → CompilationUnit → Prop} (hm : Ensures P (liftM m) Q E)
    (hf : ∀ a, Ensures (Q a) (liftM (f a)) R E) : Ensures P (liftM (m >>= f)) R E :=
  bind hm hf

/-- Which unit it is need not matter. -/
theorem get : Ensures P get (fun _ => P) E := fun _ h => h

/-- An operation on the definitions ensures what holds of the unit with the table that it returns.
-/
theorem onDefinitions {f : Definitions → IdSupply → Except TableError (α × IdSupply × Definitions)}
    (h : ∀ u a ids g, P u → f u.definitions u.ids = .ok (a, ids, g) →
      Q a { u with ids, definitions := g })
    (herror : ∀ u, P u → E u) : Ensures P (onDefinitions f) Q E := by
  intro u hu
  unfold CompilationUnit.onDefinitions
  cases hf : f u.definitions u.ids with
  | error e => exact herror u hu
  | ok r =>
    obtain ⟨a, ids, g⟩ := r
    exact h u a ids g hu hf

theorem changeDefinitions {f : Definitions → Except TableError (Bool × Definitions)}
    {R : Bool → CompilationUnit → Prop}
    (h : ∀ u b g, P u → f u.definitions = .ok (b, g) → R b { u with definitions := g })
    (herror : ∀ u, P u → E u) : Ensures P (changeDefinitions f) R E := by
  refine onDefinitions (fun u b ids g hu hf => ?_) herror
  obtain ⟨⟨b, g⟩, hg, heq⟩ := Definitions.map_eq_ok_iff.1 hf
  cases heq
  exact h u b g hu hg

theorem onLocals {f : Locals → IdSupply → Except TableError (α × IdSupply × Locals)}
    (h : ∀ u a ids l, P u → f u.locals u.ids = .ok (a, ids, l) → Q a { u with ids, locals := l })
    (herror : ∀ u, P u → E u) : Ensures P (onLocals f) Q E := by
  intro u hu
  unfold CompilationUnit.onLocals
  cases hf : f u.locals u.ids with
  | error e => exact herror u hu
  | ok r =>
    obtain ⟨a, ids, l⟩ := r
    exact h u a ids l hu hf

/-- An update ensures what holds of the unit with the table that it returns. -/
theorem updateTable {id : EntryId} {update : TypeUpdate} {R : Bool → CompilationUnit → Prop}
    (h : ∀ u changed types, P u → u.types.update id update = .ok (changed, types) →
      R changed { u with types })
    (herror : ∀ u, P u → E u) : Ensures P (fun u =>
      match u.types.update id update with
      | .ok (changed, types) => (.ok changed, { u with types })
      | .error e => (.error e, u)) R E := by
  intro u hu
  dsimp only
  cases hf : u.types.update id update with
  | error e => exact herror u hu
  | ok r => exact h u r.1 r.2 hu hf

/-- A location says which file it is in, whether it is kept or not. -/
theorem updateType {id : EntryId} {update : TypeUpdate} {R : Bool → CompilationUnit → Prop}
    (hfile : ∀ u file, P u → P (addFile file u).2)
    (h : ∀ u changed types, P u → u.types.update id update = .ok (changed, types) →
      R changed { u with types })
    (herror : ∀ u, P u → E u) : Ensures P (updateType id update) R E := by
  unfold CompilationUnit.updateType
  cases update with
  | loc l => exact bind (lift fun u hu => hfile u l.file hu) fun _ => updateTable h herror
  | _ => exact updateTable h herror

/-- What holds of the unit in any case says nothing about the answer. -/
theorem iff_snd {m : UnitM α} : Ensures P m (fun _ => E) E ↔ ∀ u, P u → E (m u).2 := by
  have hpost (u : CompilationUnit) : (match m u with
      | (.ok _, u') => E u'
      | (.error _, u') => E u') ↔ E (m u).2 := by
    rcases m u with ⟨e | a, u'⟩ <;> rfl
  exact forall_congr' fun u => imp_congr_right fun _ => hpost u

/-- What is ensured holds of the unit that is left, whether the computation fails or not. -/
theorem apply {m : UnitM α} (h : Ensures P m (fun _ => E) E) {u : CompilationUnit} (hu : P u) :
    E (m u).2 :=
  iff_snd.1 h u hu

/-- To wrap the result into an answer makes no difference. -/
theorem answer {m : UnitM α} (h : Ensures P m (fun _ => E) E) (f : α → Answer) :
    Ensures P (m >>= fun a => Pure.pure (f a)) (fun _ => E) E :=
  h.bind fun _ => .pure fun _ hu => hu

end Ensures

/-- An operation that cannot fail. -/
theorem lift_apply {m : StateM CompilationUnit α} {u u' : CompilationUnit} {a : α}
    (h : m u = (a, u')) : (liftM m : UnitM α) u = (.ok a, u') := by
  have hlift : (liftM m : UnitM α) u = (.ok (m u).1, (m u).2) := rfl
  rw [hlift, h]

/-- What an operation comes to whose result is the answer. -/
theorem answer_apply (m : UnitM α) (f : α → Answer) (u : CompilationUnit) :
    (do return f (← m) : UnitM Answer) u = ((m u).1.map f, (m u).2) := by
  have hbind : (do return f (← m) : UnitM Answer) u =
      ExceptT.bindCont (fun a => (pure (f a) : UnitM Answer)) (m u).1 (m u).2 := rfl
  rw [hbind]
  rcases m u with ⟨e | a, u'⟩ <;> rfl

/-- An operation that cannot fail and whose result is the answer. -/
theorem apply_of_lift {σ : Type} {op : Operation σ} {m : StateM CompilationUnit α} {f : α → Answer}
    (hop : perform op = do return f (← liftM m)) {u u' : CompilationUnit} {a : α}
    (h : m u = (a, u')) : u.apply op = (.ok (f a), u') := by
  rw [apply, hop, answer_apply, lift_apply h]
  rfl

/-- Whatever the operation answers, what holds before holds after. -/
abbrev Preserves (P : CompilationUnit → Prop) (m : UnitM α) : Prop := Ensures P m (fun _ => P) P

end DebugInfo.CompilationUnit
