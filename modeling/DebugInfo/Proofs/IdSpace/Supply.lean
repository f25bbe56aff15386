import DebugInfo.Ident

/-!
# Ids and entries

An id is in use in a table that has an entry under it.  A change of a table takes at most one id from
the supply, and no other id comes into use; no id goes out of use.  An entry that is there already is
left alone or replaced by what it may become.
-/

namespace DebugInfo

/-- Every id in use was handed out. -/
def IdSupply.Covers (ids : IdSupply) (used : EntryId → Prop) : Prop :=
  ∀ id, used id → id.raw < ids.allocated

variable {ids ids' : IdSupply} {used used' : EntryId → Prop}

/-- The next id is not in use. -/
theorem IdSupply.Covers.not_fresh (h : ids.Covers used) : ¬ used ids.fresh.1 :=
  fun hused => Nat.lt_irrefl _ (h _ hused)

theorem IdSupply.Covers.ne_fresh (h : ids.Covers used) {id : EntryId} (hid : used id) :
    ids.fresh.1 ≠ id := by
  rintro rfl
  exact h.not_fresh hid

/-- At most one id is taken from the supply, and no other id comes into use. -/
structure Draws (ids : IdSupply) (used : EntryId → Prop) (ids' : IdSupply)
    (used' : EntryId → Prop) : Prop where
  supply : ids' = ids ∨ ids' = ids.fresh.2
  kept : ∀ id, used id → used' id
  new : ∀ id, used' id → used id ∨ (id = ids.fresh.1 ∧ ids' = ids.fresh.2)

namespace Draws

/-- If the same ids are in use, then nothing need be drawn. -/
theorem nothing (h : ∀ id, used' id ↔ used id) : Draws ids used ids used' :=
  ⟨.inl rfl, fun id => (h id).2, fun id hid => .inl ((h id).1 hid)⟩

/-- An id may be drawn that does not come into use. -/
theorem spare (h : ∀ id, used' id ↔ used id) : Draws ids used ids.fresh.2 used' :=
  ⟨.inr rfl, fun id => (h id).2, fun id hid => .inl ((h id).1 hid)⟩

/-- The id that is drawn may come into use. -/
theorem entry (h : ∀ id, used' id ↔ used id ∨ id = ids.fresh.1) :
    Draws ids used ids.fresh.2 used' :=
  ⟨.inr rfl, fun id hid => (h id).2 (.inl hid), fun id hid => ((h id).1 hid).imp_right (⟨·, rfl⟩)⟩

theorem allocated (h : Draws ids used ids' used') : ids.allocated ≤ ids'.allocated := by
  rcases h.supply with rfl | rfl
  · exact Nat.le_refl _
  · exact Nat.le_succ _

/-- If all ids in use come from the supply, then this holds after one is drawn. -/
theorem covers (h : Draws ids used ids' used') (hcovers : ids.Covers used) :
    ids'.Covers used' := by
  intro id hid
  rcases h.new id hid with hid | ⟨rfl, rfl⟩
  · exact Nat.lt_of_lt_of_le (hcovers id hid) h.allocated
  · exact Nat.lt_succ_self _

end Draws

namespace EntryMap

variable {α : Type} {R : α → α → Prop} {m m₁ m₂ m₃ : EntryMap α} {id : EntryId} {a a' : α}

def Has (m : EntryMap α) (id : EntryId) : Prop := ∃ a, m[id]? = some a

/-- Nothing is found under the next id. -/
theorem getElem?_fresh (h : ids.Covers m.Has) : m[ids.fresh.1]? = none :=
  Option.eq_none_iff_forall_ne_some.2 fun a ha => h.not_fresh ⟨a, ha⟩

/-- An id is in use if it was before or has just been inserted. -/
theorem has_insert (m : EntryMap α) (id id' : EntryId) (a : α) :
    Has (m.insert id a) id' ↔ m.Has id' ∨ id' = id := by
  unfold Has
  rw [Std.ExtTreeMap.getElem?_insert]
  simp only [Std.compare_eq_iff_eq]
  split
  · next heq => simp [heq]
  · next hne => simp [Ne.symm hne]

/-- To insert under the next id draws it. -/
theorem draws_insert_fresh (ids : IdSupply) (m : EntryMap α) (a : α) :
    Draws ids m.Has ids.fresh.2 (Has (m.insert ids.fresh.1 a)) :=
  .entry fun id => has_insert m ids.fresh.1 id a

/-- To overwrite an entry draws nothing. -/
theorem draws_insert (h : m[id]? = some a) (ids : IdSupply) (a' : α) :
    Draws ids m.Has ids (Has (m.insert id a')) := by
  refine .nothing fun id' => ?_
  rw [has_insert]
  exact or_iff_left_of_imp fun heq => heq ▸ ⟨a, h⟩

/-- Every entry is still there, as what `R` lets it become. -/
def Evolves (R : α → α → Prop) (m m' : EntryMap α) : Prop :=
  ∀ (id : EntryId) (a : α), m[id]? = some a → ∃ a', m'[id]? = some a' ∧ R a a'

theorem Evolves.refl (hR : ∀ a, R a a) (m : EntryMap α) : m.Evolves R m :=
  fun _ a h => ⟨a, h, hR a⟩

theorem Evolves.trans (hR : ∀ {a b c}, R a b → R b c → R a c) (h : m₁.Evolves R m₂)
    (h' : m₂.Evolves R m₃) : m₁.Evolves R m₃ := by
  intro id a ha
  obtain ⟨b, hb, hab⟩ := h id a ha
  obtain ⟨c, hc, hbc⟩ := h' id b hb
  exact ⟨c, hc, hR hab hbc⟩

/-- A new entry leaves the others as they are. -/
theorem evolves_insert_fresh (hR : ∀ a, R a a) {ids : IdSupply} (hcovers : ids.Covers m.Has)
    (a : α) : m.Evolves R (m.insert ids.fresh.1 a) := by
  intro id b hb
  have hne : ids.fresh.1 ≠ id := hcovers.ne_fresh ⟨b, hb⟩
  refine ⟨b, ?_, hR b⟩
  rw [Std.ExtTreeMap.getElem?_insert, if_neg (by rwa [Std.compare_eq_iff_eq]), hb]

/-- An entry may be overwritten with one that it is related to. -/
theorem evolves_insert (hR : ∀ a, R a a) (h : m[id]? = some a) (haa' : R a a') :
    m.Evolves R (m.insert id a') := by
  intro id' b hb
  rw [Std.ExtTreeMap.getElem?_insert]
  split
  · next heq =>
    rw [Std.compare_eq_iff_eq] at heq
    subst heq
    rw [h] at hb
    cases hb
    exact ⟨a', rfl, haa'⟩
  · exact ⟨b, hb, hR b⟩

end EntryMap

end DebugInfo
