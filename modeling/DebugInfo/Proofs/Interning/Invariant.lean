import DebugInfo.Proofs.Interning.Description
import DebugInfo.Proofs.Interning.Shapes

/-!
# The invariant of interning

A table is `Sound` if its keys and its descriptors belong together: every key leads to an id that
represents the types of the key, no two keys share an id, and every descriptor has a key.

A type that is missing can be added, and the table stays sound if the descriptor describes the type.
-/

namespace DebugInfo.TypeTable

open TypeExpr

/-! ## Sound tables -/

/-- Keys and ids in use correspond, and every id represents a type that has its key. -/
structure Sound (s : State) : Prop where
  /-- Ids come from the supply. -/
  allocated : ∀ id d, s.2.get? id = some d → id.raw < s.1.allocated
  represents : ∀ (k : TypeKey) (id : EntryId), s.2.keys[k]? = some id →
    ∃ t, k = TypeKey.of s.2.mode t ∧ s.2.Represents id t
  injective : ∀ (k k' : TypeKey) (id : EntryId), s.2.keys[k]? = some id →
    s.2.keys[k']? = some id → k = k'
  keyed : ∀ id d, s.2.get? id = some d → ∃ k : TypeKey, s.2.keys[k]? = some id

theorem Sound.empty (ids : IdSupply) (mode : KeyMode) : Sound (ids, .empty mode) where
  allocated _ _ h := by simp [TypeTable.empty, get?] at h
  represents _ _ h := by simp [TypeTable.empty] at h
  injective _ _ _ h := by simp [TypeTable.empty] at h
  keyed _ _ h := by simp [TypeTable.empty, get?] at h

theorem Sound.mono {s : State} (h : Sound s) {ids : IdSupply}
    (hids : s.1.allocated ≤ ids.allocated) : Sound (ids, s.2) :=
  ⟨fun id d hd => Nat.lt_of_lt_of_le (h.allocated id d hd) hids, h.represents, h.injective, h.keyed⟩

/-- Nothing is under an id that is not handed out yet. -/
theorem Sound.get?_eq_none {s : State} (h : Sound s) {id : EntryId}
    (hid : s.1.allocated ≤ id.raw) : s.2.get? id = none :=
  Option.eq_none_iff_forall_ne_some.2 fun d hd => Nat.not_lt.2 hid (h.allocated id d hd)

/-- The id that is found for a type represents it. -/
theorem Sound.represents_of_find? {s : State} (hs : Sound s) {t : CanonicalType} {id : EntryId}
    (h : s.2.find? t = some id) : s.2.Represents id t := by
  obtain ⟨u, hk, hu⟩ := hs.represents _ _ h
  exact hu.of_key_eq hk.symm

/-- The table only grows, and ids are only taken. -/
structure Grows (s s' : State) : Prop where
  extends_ : s.2.Extends s'.2
  allocated : s.1.allocated ≤ s'.1.allocated

theorem Grows.refl (s : State) : Grows s s := ⟨.refl s.2, Nat.le_refl _⟩

theorem Grows.trans {s₁ s₂ s₃ : State} (h : Grows s₁ s₂) (h' : Grows s₂ s₃) : Grows s₁ s₃ :=
  ⟨h.extends_.trans h'.extends_, Nat.le_trans h.allocated h'.allocated⟩

/-! ## Adding one type -/

variable {s : State} {t : CanonicalType} {d : Descriptor}

/-- A new descriptor is not put where there is one. -/
theorem Sound.ne_of_get? (hs : Sound s) (t : CanonicalType) (d : Descriptor) {id : EntryId}
    {d' : Descriptor} (h : s.2.get? id = some d') : (add t d s).1 ≠ id := by
  rintro rfl
  exact Nat.lt_irrefl _ (hs.allocated _ _ h)

/-- To add a type that is not found extends the table. -/
theorem extends_add (hs : Sound s) (ht : s.2.find? t = none) (d : Descriptor) :
    s.2.Extends (add t d s).2.2 := by
  refine ⟨rfl, ?_, ?_⟩
  · intro id d' h
    refine ⟨d', ?_, fun _ => rfl⟩
    rw [get?_add, if_neg (hs.ne_of_get? t d h), h]
  · intro k id h
    have hne : TypeKey.of s.2.mode t ≠ k := by
      rintro rfl
      rw [find?, h] at ht
      cases ht
    rw [keys_add, if_neg hne, h]

/-- To add a type that is not found makes the table grow. -/
theorem grows_add (hs : Sound s) (ht : s.2.find? t = none) (d : Descriptor) :
    Grows s (add t d s).2 :=
  ⟨extends_add hs ht d, Nat.le_succ _⟩

/-- The first descriptor of a key keeps the table sound. -/
theorem sound_add (hs : Sound s) (ht : s.2.find? t = none) (hd : s.2.Describes d t) :
    Sound (add t d s).2 := by
  have hext : s.2.Extends (add t d s).2.2 := extends_add hs ht d
  have hnew : (add t d s).2.2.get? (add t d s).1 = some d := by rw [get?_add, if_pos rfl]
  have hold (k : TypeKey) (h : s.2.keys[k]? = some (add t d s).1) : False := by
    obtain ⟨u, -, hu⟩ := hs.represents k _ h
    obtain ⟨d', hd'⟩ := hu.get?
    exact hs.ne_of_get? t d hd' rfl
  constructor
  · intro id d' h
    rw [get?_add] at h
    split at h
    · next heq =>
      rw [← heq]
      exact Nat.lt_succ_self _
    · exact Nat.lt_succ_of_lt (hs.allocated id d' h)
  · intro k id h
    rw [keys_add] at h
    split at h
    · next heq =>
      cases h
      exact ⟨t, heq.symm, (hd.mono hext).represents hnew⟩
    · obtain ⟨u, hk, hu⟩ := hs.represents k id h
      exact ⟨u, hk, hu.mono hext⟩
  · intro k k' id h h'
    rw [keys_add] at h h'
    split at h <;> split at h'
    · next heq heq' => exact heq.symm.trans heq'
    · cases h
      exact absurd h' (fun h' => hold k' h')
    · cases h'
      exact absurd h (fun h => hold k h)
    · exact hs.injective k k' id h h'
  · intro id d' h
    rw [get?_add] at h
    split at h
    · next heq => exact ⟨TypeKey.of s.2.mode t, by rw [keys_add, if_pos rfl, heq]⟩
    · obtain ⟨k, hk⟩ := hs.keyed id d' h
      exact ⟨k, hext.key k id hk⟩

end DebugInfo.TypeTable
