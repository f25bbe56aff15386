/-!
# The first match in a list

Changing the first element that has a property, and leaving the rest as it is.
-/

namespace DebugInfo

variable {α : Type}

/-- Change the first element that satisfies `p`; without one, change nothing. -/
def updateFirst (p : α → Bool) (f : α → α) : List α → List α
  | [] => []
  | a :: as => if p a then f a :: as else a :: updateFirst p f as

@[simp] theorem length_updateFirst (p : α → Bool) (f : α → α) (as : List α) :
    (updateFirst p f as).length = as.length := by
  induction as with
  | nil => rfl
  | cons a as ih =>
    unfold updateFirst
    split <;> simp [ih]

theorem updateFirst_of_forall_not {p : α → Bool} {f : α → α} {as : List α}
    (h : ∀ a ∈ as, p a = false) : updateFirst p f as = as := by
  induction as with
  | nil => rfl
  | cons a as ih =>
    rw [updateFirst, h a List.mem_cons_self, ih fun b hb => h b (List.mem_cons_of_mem _ hb)]
    rfl

/-- What a change keeps of each element is kept of the list. -/
theorem map_updateFirst {β : Type} {p : α → Bool} {f : α → α} {g : α → β}
    (h : ∀ a, g (f a) = g a) (as : List α) : (updateFirst p f as).map g = as.map g := by
  induction as with
  | nil => rfl
  | cons a as ih =>
    unfold updateFirst
    split <;> simp [h, ih]

/-- A second change finds the same element, if the first one does not hide it. -/
theorem updateFirst_updateFirst {p : α → Bool} {f : α → α} (hp : ∀ a, p a → p (f a)) (g : α → α)
    (as : List α) : updateFirst p g (updateFirst p f as) = updateFirst p (g ∘ f) as := by
  induction as with
  | nil => rfl
  | cons a as ih =>
    cases ha : p a with
    | true => simp [updateFirst, ha, hp a ha]
    | false => simp [updateFirst, ha, ih]

/-- What stands in front of the first match and behind it stays. -/
theorem updateFirst_append_cons {p : α → Bool} (f : α → α) {before : List α} {a : α}
    (hbefore : ∀ b ∈ before, p b = false) (ha : p a = true) (after : List α) :
    updateFirst p f (before ++ a :: after) = before ++ f a :: after := by
  induction before with
  | nil => simp [updateFirst, ha]
  | cons b before ih =>
    rw [List.cons_append, updateFirst, hbefore b List.mem_cons_self,
      ih fun c hc => hbefore c (List.mem_cons_of_mem b hc)]
    rfl

/-- The first match is changed where it stands. -/
theorem updateFirst_eq_modify {p : α → Bool} (f : α → α) {as : List α} {i : Nat}
    (h : as.findIdx? p = some i) : updateFirst p f as = as.modify i f := by
  induction as generalizing i with
  | nil => cases h
  | cons a as ih =>
    rw [List.findIdx?_cons] at h
    cases ha : p a with
    | true =>
      rw [if_pos ha] at h
      cases h
      simp [updateFirst, ha]
    | false =>
      rw [if_neg (by simp [ha])] at h
      obtain ⟨j, hj, rfl⟩ := Option.map_eq_some_iff.1 h
      simp [updateFirst, ha, ih hj]

/-- The first match before is the first match afterwards. -/
theorem find?_updateFirst_self {p : α → Bool} {f : α → α} (hp : ∀ a, p a → p (f a))
    (as : List α) : (updateFirst p f as).find? p = (as.find? p).map f := by
  induction as with
  | nil => rfl
  | cons a as ih =>
    cases ha : p a with
    | true => simp [updateFirst, ha, hp a ha]
    | false => simp [updateFirst, ha, ih]

/-- What is not a match is found as before. -/
theorem find?_updateFirst_of_not {p q : α → Bool} {f : α → α} (hq : ∀ a, q (f a) = q a)
    (hpq : ∀ a, p a → q a = false) (as : List α) :
    (updateFirst p f as).find? q = as.find? q := by
  induction as with
  | nil => rfl
  | cons a as ih =>
    cases ha : p a with
    | true => simp [updateFirst, ha, hq, hpq a ha]
    | false => simp [updateFirst, ha, ih, List.find?_cons]

end DebugInfo
