import DebugInfo.Proofs.Interning.Soundness
import DebugInfo.TypeTable.Update

/-!
# Interning only appends

Of any table, sound or not, interning leaves the descriptors that are there alone, and takes its ids
from the supply.  What it adds refers to the types it is made of, but to nothing that only a
definition says: a composite starts without members and a typedef name without a target.

Of a sound table, what is new are exactly the ids that were taken.
-/

namespace DebugInfo

/-- The ids in a descriptor that are written there by a definition of the type. -/
def Descriptor.references : Descriptor → List EntryId
  | .composite c => c.members.map (·.type)
  | .alias a => a.target.toList
  | _ => []

theorem Descriptor.references_ofBase (b : BaseType) : (Descriptor.ofBase b).references = [] := by
  cases b <;> rfl

/-- A descriptor that only fits its type has nothing that a definition says. -/
theorem Descriptor.Fits.references {R : CanonicalType → EntryId → Prop} {d : Descriptor}
    {t : CanonicalType} (h : d.Fits R t) : d.references = [] := by
  cases h with
  | base b => exact references_ofBase b
  | _ => rfl

/-- The ids that an update writes into a descriptor. -/
def TypeUpdate.references : TypeUpdate → List EntryId
  | .members ms => ms.map (·.type)
  | .target id => [id]
  | _ => []

/-- If an update keeps the type of a member, then the types of all members stay. -/
theorem types_updateMember {f : Member → Member} (hf : ∀ m, (f m).type = m.type) (name : Name)
    (ms : List Member) : (updateMember name f ms).map (·.type) = ms.map (·.type) :=
  map_updateFirst hf ms

/-- An update keeps what a descriptor refers to, or writes its own references. -/
theorem TypeUpdate.references_result? {u : TypeUpdate} {d d' : Descriptor}
    (h : u.result? d = some d') :
    d'.references = d.references ∨ d'.references = u.references := by
  cases u <;> cases d <;> simp only [result?, Option.some.injEq, reduceCtorEq] at h <;> subst h
  case members.composite => exact .inr rfl
  case target.alias => exact .inr rfl
  case memberOffset.composite name n c =>
    left
    refine types_updateMember ?_ name c.members
    exact fun _ => rfl
  case memberLayout.composite name l c =>
    left
    refine types_updateMember ?_ name c.members
    exact fun _ => rfl
  all_goals exact .inl rfl

namespace TypeTable

/-- Types are added one after the other, and nothing that only a definition says is in them. -/
inductive Appends (s : State) : State → Prop where
  | refl : Appends s s
  | add {s' : State} (h : Appends s s') (t : CanonicalType) {d : Descriptor}
      (hd : d.references = []) : Appends s (TypeTable.add t d s').2

namespace Appends

variable {s s' : State}

theorem allocated (h : Appends s s') : s.1.allocated ≤ s'.1.allocated := by
  induction h with
  | refl => exact Nat.le_refl _
  | add _ t hd ih => exact Nat.le_succ_of_le ih

/-- A descriptor that is not new is what it was. -/
theorem get?_of_lt (h : Appends s s') {id : EntryId} (hid : id.raw < s.1.allocated) :
    s'.2.get? id = s.2.get? id := by
  induction h with
  | refl => rfl
  | @add s' h t d hd ih =>
    have hne : (TypeTable.add t d s').1 ≠ id := by
      rintro rfl
      exact Nat.lt_irrefl _ (Nat.lt_of_lt_of_le hid h.allocated)
    rw [get?_add, if_neg hne, ih]

/-- A descriptor is an old one or refers to nothing. -/
theorem descriptor (h : Appends s s') (id : EntryId) (d : Descriptor)
    (hd : s'.2.get? id = some d) : s.2.get? id = some d ∨ d.references = [] := by
  induction h with
  | refl => exact .inl hd
  | add _ t hnew ih =>
    rw [get?_add] at hd
    split at hd
    · cases hd
      exact .inr hnew
    · exact ih hd

end Appends

/-- To intern types appends them. -/
theorem Interns.appends {ts : List CanonicalType} {s s' : State} (h : Interns ts s s') :
    Appends s s' := by
  induction h with
  | refl => exact .refl
  | @add s' t _ _ _ _ hd ih => exact ih.add t hd.references

/-- To intern a type appends all that it is made of. -/
theorem intern_appends (t : TypeExpr Attr) (s : State) : Appends s (intern t s).2 :=
  (intern_interning t s).1.appends

/-! ## What is new -/

/-- The id was taken from the supply in between. -/
def Taken (s s' : State) (id : EntryId) : Prop :=
  s.1.allocated ≤ id.raw ∧ id.raw < s'.1.allocated

/-- Descriptors and keys are what they were, and the ids that were taken since are the ids of the
new ones. -/
structure Enlarges (s s' : State) : Prop where
  mode : s'.2.mode = s.2.mode
  allocated : s.1.allocated ≤ s'.1.allocated
  descriptor : ∀ id d, s.2.get? id = some d → s'.2.get? id = some d
  key : ∀ (k : TypeKey) (id : EntryId), s.2.keys[k]? = some id → s'.2.keys[k]? = some id
  taken_iff : ∀ id, Taken s s' id ↔ s.2.get? id = none ∧ ∃ d, s'.2.get? id = some d
  newKey : ∀ (k : TypeKey) (id : EntryId), s'.2.keys[k]? = some id →
    s.2.keys[k]? = some id ∨ Taken s s' id

variable {s s' : State}

/-- To add a type takes one more id. -/
theorem taken_add_iff (h : s.1.allocated ≤ s'.1.allocated) (t : CanonicalType) (d : Descriptor)
    (id : EntryId) :
    Taken s (add t d s').2 id ↔ Taken s s' id ∨ id = (add t d s').1 := by
  have hid : id = (add t d s').1 ↔ id.raw = s'.1.allocated := Ident.ext_iff
  have hids : (add t d s').2.1.allocated = s'.1.allocated + 1 := rfl
  rw [hid, Taken, Taken, hids]
  omega

variable {ts : List CanonicalType}

theorem Interns.allocated (h : Interns ts s s') : s.1.allocated ≤ s'.1.allocated :=
  h.appends.allocated

/-- Every id that was taken has a descriptor. -/
theorem Interns.get?_of_taken (h : Interns ts s s') {id : EntryId} (hid : Taken s s' id) :
    ∃ d, s'.2.get? id = some d := by
  induction h with
  | refl => exact absurd hid.1 (Nat.not_le.2 hid.2)
  | @add s' t d h _ _ _ ih =>
    rw [get?_add]
    split
    · exact ⟨d, rfl⟩
    · next hne =>
      rcases (taken_add_iff h.allocated t d id).1 hid with hid | rfl
      · exact ih hid
      · exact absurd rfl hne

/-- A key stands for an old id, or for one that was taken. -/
theorem Interns.key_cases (h : Interns ts s s') {k : TypeKey} {id : EntryId}
    (hk : s'.2.keys[k]? = some id) : s.2.keys[k]? = some id ∨ Taken s s' id := by
  induction h with
  | refl => exact .inl hk
  | @add s' t d h _ _ _ ih =>
    rw [keys_add] at hk
    rw [taken_add_iff h.allocated]
    split at hk
    · exact .inr (.inr (Option.some.inj hk).symm)
    · exact (ih hk).imp_right .inl

/-- To intern types enlarges a sound table. -/
theorem Sound.enlarges (hs : Sound s) (h : Interns ts s s') : Enlarges s s' := by
  refine ⟨h.mode, h.allocated, ?_, fun _ _ => h.key, ?_, fun _ _ => h.key_cases⟩
  · intro id d hd
    rw [h.appends.get?_of_lt (hs.allocated id d hd), hd]
  · intro id
    constructor
    · intro hid
      exact ⟨hs.get?_eq_none hid.1, h.get?_of_taken hid⟩
    · rintro ⟨hnone, d, hd⟩
      refine ⟨?_, (hs.interns h).1.allocated id d hd⟩
      by_contra hlt
      rw [h.appends.get?_of_lt (Nat.lt_of_not_le hlt), hnone] at hd
      cases hd

end TypeTable

end DebugInfo
