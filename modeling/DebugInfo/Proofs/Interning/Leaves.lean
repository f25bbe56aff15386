import DebugInfo.Proofs.Interning.Permutation

/-!
# The base types in a type

A type is built from base types, and its key tells them up to what the key tells of a base type by
itself.  Once a type has been interned they are found as well, however deep they are, and nothing
but the types that were interned has brought them there.  Only `void` is left out of this: it may
say that a function has no result or no parameters.
-/

namespace DebugInfo

namespace TypeExpr

variable {α β : Type}

mutual

/-- The base types in a type, from left to right. -/
def leaves : TypeExpr α → List BaseType
  | .base _ b => [b]
  | .pointer _ t => leaves t
  | .array _ t _ => leaves t
  | .function _ r ps _ => leaves r ++ leavesParams ps
  | .unprototyped _ r _ => leaves r

def leavesParams : List (Name × TypeExpr α) → List BaseType
  | [] => []
  | (_, t) :: ps => leaves t ++ leavesParams ps

end

theorem leavesParams_eq_flatMap (ps : List (Name × TypeExpr α)) :
    leavesParams ps = ps.flatMap fun p => leaves p.2 := by
  induction ps with
  | nil => rfl
  | cons p ps ih => simp [leavesParams, ih]

@[simp] theorem leaves_withAttrs (as : List α) (t : TypeExpr α) :
    leaves (t.withAttrs as) = leaves t := by
  cases t <;> rfl

/-- Attributes do not matter for the base types. -/
theorem leaves_mapAttrs (f : List α → List β) (t : TypeExpr α) :
    leaves (t.mapAttrs f) = leaves t := by
  induction t with
  | base as b => rfl
  | pointer as t ih => exact ih
  | array as t n ih => exact ih
  | function as r ps v ihr ihps =>
    have hps : leavesParams (mapParamAttrs f ps) = leavesParams ps := by
      rw [leavesParams_eq_flatMap, leavesParams_eq_flatMap, mapParamAttrs_eq_map, List.flatMap_map]
      exact List.flatMap_congr ihps
    rw [mapAttrs, leaves, leaves, ihr, hps]
  | unprototyped as r v ih => exact ih

theorem leaves_canonical (t : TypeExpr Attr) : leaves t.canonical = leaves t := leaves_mapAttrs _ t

/-! ## Parts -/

/-- Every layer has the base types of the whole. -/
theorem leaves_of_mem_layers {t u : CanonicalType} {qs : List Qualifier} (h : u ∈ layers t qs) :
    leaves u = leaves t := by
  induction qs with
  | nil =>
    cases List.mem_singleton.1 h
    exact leaves_withAttrs [] t
  | cons q qs ih =>
    rcases List.mem_cons.1 h with rfl | h
    · exact leaves_withAttrs (q :: qs) t
    · exact ih h

/-- What is claimed of a type: whatever is inside of it is built from its base types. -/
abbrev LeavesInside (t : CanonicalType) : Prop := ∀ u ∈ inside t, leaves u ⊆ leaves t

/-- What a type is made of has no other base types. -/
theorem LeavesInside.closure {t u : CanonicalType} (h : LeavesInside t) (hu : u ∈ closure t) :
    leaves u ⊆ leaves t := by
  rcases List.mem_append.1 hu with hu | hu
  · rw [leaves_of_mem_layers hu]
    exact List.Subset.refl _
  · exact h u hu

theorem LeavesInside.result {r u : CanonicalType} (h : LeavesInside r)
    (hu : u ∈ if r.isPlainVoid then [] else TypeExpr.closure r) : leaves u ⊆ leaves r := by
  split at hu
  · cases hu
  · exact h.closure hu

/-- What is inside of a type has no other base types. -/
theorem leavesInside (t : CanonicalType) : LeavesInside t := by
  induction t using TypeExpr.induct with
  | base qs b => exact fun u hu => nomatch hu
  | pointer qs t ih => exact fun u hu => ih.closure hu
  | array qs t n ih =>
    intro u hu
    rw [inside] at hu
    split at hu
    · exact ih u hu
    · exact ih.closure hu
  | function qs r ps v ihr ihps =>
    intro u hu
    rcases List.mem_append.1 hu with hu | hu
    · exact List.subset_append_of_subset_left _ (ihr.result hu)
    · obtain ⟨p, hp, hu⟩ := mem_insideParams.1 hu
      refine List.subset_append_of_subset_right _ fun b hb => ?_
      rw [leavesParams_eq_flatMap]
      exact List.mem_flatMap.2 ⟨p, hp, (ihps p hp).closure hu hb⟩
  | unprototyped qs r v ih => exact fun u hu => ih.result hu

/-! ## Keys -/

/-- The parameters of a prototype are its own, or it has none and says `void`. -/
theorem declared_cases (ps : List (Name × CanonicalType)) (v : Bool) :
    declared ps v = ps ∨ declared ps v = [] ∧ leavesParams ps = [.void] := by
  unfold declared
  split
  · next p =>
    split
    · next h =>
      obtain ⟨n, t⟩ := p
      have ht : t = .base [] .void := (isPlainVoid_iff t).1 h
      exact .inr ⟨rfl, by rw [ht]; rfl⟩
    · exact .inl rfl
  · exact .inl rfl

/-- The stamps go, and so may a `void` in the place of parameters. -/
theorem mem_leaves_erased {t : CanonicalType} {b : BaseType} (hb : b ∈ leaves t)
    (hvoid : b ≠ .void) : b.unstamped ∈ leaves t.erased := by
  induction t using TypeExpr.induct with
  | base qs b' =>
    cases List.mem_singleton.1 hb
    exact List.mem_singleton_self _
  | pointer qs t ih => exact ih hb
  | array qs t n ih => exact ih hb
  | function qs r ps v ihr ihps =>
    rw [erased, leaves, List.mem_append]
    rcases List.mem_append.1 hb with hb | hb
    · exact .inl (ihr hb)
    · right
      rw [declared_erasedParams]
      rcases declared_cases ps v with hps | ⟨-, hps⟩
      · rw [hps, erasedParams_eq_map, leavesParams_eq_flatMap, List.flatMap_map]
        rw [leavesParams_eq_flatMap] at hb
        obtain ⟨p, hp, hb⟩ := List.mem_flatMap.1 hb
        exact List.mem_flatMap.2 ⟨p, hp, ihps p hp hb⟩
      · rw [hps] at hb
        exact absurd (List.mem_singleton.1 hb) hvoid
  | unprototyped qs r v ih => exact ih hb

/-- The base types that are left after erasing are those from before, without their stamps. -/
theorem exists_of_mem_leaves_erased {t : CanonicalType} {b : BaseType}
    (hb : b ∈ leaves t.erased) : ∃ b' ∈ leaves t, b'.unstamped = b := by
  induction t using TypeExpr.induct with
  | base qs b' => exact ⟨b', List.mem_singleton_self _, (List.mem_singleton.1 hb).symm⟩
  | pointer qs t ih => exact ih hb
  | array qs t n ih => exact ih hb
  | function qs r ps v ihr ihps =>
    rw [erased, leaves, List.mem_append] at hb
    rcases hb with hb | hb
    · obtain ⟨b', hb', heq⟩ := ihr hb
      exact ⟨b', List.mem_append_left _ hb', heq⟩
    · rw [declared_erasedParams] at hb
      rcases declared_cases ps v with hps | ⟨hps, -⟩
      · rw [hps, erasedParams_eq_map, leavesParams_eq_flatMap, List.flatMap_map] at hb
        obtain ⟨p, hp, hb⟩ := List.mem_flatMap.1 hb
        obtain ⟨b', hb', heq⟩ := ihps p hp hb
        refine ⟨b', List.mem_append_right _ ?_, heq⟩
        rw [leavesParams_eq_flatMap]
        exact List.mem_flatMap.2 ⟨p, hp, hb'⟩
      · rw [hps] at hb
        cases hb
  | unprototyped qs r v ih => exact ih hb

/-- The type is built from a base type of that key. -/
def Mentions (mode : KeyMode) (b : BaseType) (t : TypeExpr α) : Prop :=
  ∃ b' ∈ leaves t, TypeKey.of mode (.base [] b') = TypeKey.of mode (.base [] b)

variable {mode : KeyMode} {b : BaseType} {t u : CanonicalType}

/-- A base type other than `void` has not the key of `void`. -/
theorem ne_void_of_key_eq {b' : BaseType}
    (hkey : TypeKey.of mode (.base [] b') = TypeKey.of mode (.base [] b)) (hvoid : b ≠ .void) :
    b' ≠ .void := by
  rintro rfl
  have hreduced := (key_eq_iff mode (.base [] .void) (.base [] b)).1 hkey
  cases mode with
  | structural =>
    cases hreduced
    exact hvoid rfl
  | spelling =>
    simp only [reduced, erased, base.injEq, true_and] at hreduced
    cases b <;> first | exact hvoid rfl | cases hreduced

/-- Types of one key mention the same base types. -/
theorem Mentions.of_key_eq (hkey : TypeKey.of mode t = TypeKey.of mode u) (hvoid : b ≠ .void)
    (h : t.Mentions mode b) : u.Mentions mode b := by
  cases mode with
  | structural =>
    cases TypeKey.of_structural_inj.1 hkey
    exact h
  | spelling =>
    have herased : t.erased = u.erased := (key_eq_iff .spelling t u).1 hkey
    obtain ⟨b₁, hb₁, hkey₁⟩ := h
    have hmem := mem_leaves_erased hb₁ (ne_void_of_key_eq hkey₁ hvoid)
    rw [herased] at hmem
    obtain ⟨b₂, hb₂, heq⟩ := exists_of_mem_leaves_erased hmem
    refine ⟨b₂, hb₂, Eq.trans ?_ hkey₁⟩
    rw [key_eq_iff]
    exact congrArg (base []) heq

end TypeExpr

/-! ## Tables -/

/-- Every parameter that fits has an id that is related to it. -/
theorem Descriptor.FitsParams.exists_id {R : CanonicalType → EntryId → Prop}
    {ids : List (Name × EntryId)} {ps : List (Name × CanonicalType)} (h : FitsParams R ids ps) :
    ∀ p ∈ ps, ∃ id, R p.2 id := by
  induction h with
  | nil => exact fun p hp => nomatch hp
  | @cons i p ids ps hip _ ih =>
    intro p' hp'
    rcases List.mem_cons.1 hp' with rfl | hp'
    · exact ⟨i.2, hip.2⟩
    · exact ih p' hp'

/-- A base type in a type is all there is to the type, or it is in a part of it. -/
theorem Descriptor.Fits.leaves {R : CanonicalType → EntryId → Prop} {d : Descriptor}
    {t : CanonicalType} (h : d.Fits R t) {b : BaseType} (hb : b ∈ t.leaves) (hvoid : b ≠ .void) :
    t = .base [] b ∨ ∃ u id, R u id ∧ b ∈ u.leaves := by
  have result {result : Option EntryId} {r : CanonicalType} (hr : FitsResult R result r)
      (hb : b ∈ r.leaves) : ∃ u id, R u id ∧ b ∈ u.leaves := by
    cases result with
    | none =>
      cases (TypeExpr.isPlainVoid_iff r).1 hr
      exact absurd (List.mem_singleton.1 hb) hvoid
    | some id => exact ⟨r, id, hr.2, hb⟩
  induction h with
  | base b' =>
    cases List.mem_singleton.1 hb
    exact .inl rfl
  | pointer h => exact .inr ⟨_, _, h, hb⟩
  | array _ h n => exact .inr ⟨_, _, h, hb⟩
  | dimension ht _ n ih =>
    right
    rcases ih hb with rfl | h
    · cases ht
    · exact h
  | function hr hps v =>
    right
    rcases List.mem_append.1 hb with hb | hb
    · exact result hr hb
    · rw [TypeExpr.leavesParams_eq_flatMap] at hb
      obtain ⟨p, hp, hb⟩ := List.mem_flatMap.1 hb
      obtain ⟨id, hid⟩ := FitsParams.exists_id hps p hp
      exact ⟨p.2, id, hid, hb⟩
  | unprototyped hr v => exact .inr (result hr hb)
  | @qualified q qs id t ht h => exact .inr ⟨_, id, h, by rwa [TypeExpr.leaves_withAttrs]⟩

namespace TypeTable

open TypeExpr

variable {s s' : State} {ts : List CanonicalType} {t : CanonicalType} {b : BaseType}

/-- With a type, the base types in it are found. -/
def FindsLeaves (table : TypeTable) : Prop :=
  ∀ t id b, table.Finds t id → b ≠ .void → t.Mentions table.mode b → table.Found (.base [] b)

theorem findsLeaves_empty (mode : KeyMode) : FindsLeaves (empty mode) := by
  intro t id b h
  simp [Finds, find?, empty] at h

/-- A type is found if one with its key is. -/
theorem Found.of_key_eq {table : TypeTable} {u : CanonicalType} (h : table.Found t)
    (hkey : TypeKey.of table.mode t = TypeKey.of table.mode u) : table.Found u := by
  obtain ⟨id, hid⟩ := h
  rw [Finds, find?, hkey] at hid
  exact ⟨id, hid⟩

/-- To add a type whose parts are found keeps its base types found. -/
theorem FindsLeaves.add {d : Descriptor} (hs : FindsLeaves s.2) (hnew : s.2.find? t = none)
    (hd : d.Fits s.2.Finds t) : FindsLeaves (add t d s).2.2 := by
  have hadd : Interns [t] s (TypeTable.add t d s).2 :=
    .add .refl (List.mem_singleton_self t) hnew hd
  intro u id b hid hvoid hb
  rcases hadd.finds_cases hid with hid | ⟨t', ht', hkey⟩
  · obtain ⟨id', hid'⟩ := hs u id b hid hvoid hb
    exact ⟨id', hadd.finds hid'⟩
  · -- The type that is found now need not be the one that was added, but it has its key.
    cases List.mem_singleton.1 ht'
    obtain ⟨b', hb', hkey'⟩ := hb.of_key_eq hkey.symm hvoid
    have hvoid' : b' ≠ .void := ne_void_of_key_eq hkey' hvoid
    have hfound : (TypeTable.add t d s).2.2.Found (.base [] b') := by
      rcases hd.leaves hb' hvoid' with rfl | ⟨v, id', hv, hb'⟩
      · exact ⟨_, find?_add_self s _ d⟩
      · obtain ⟨id'', hid''⟩ := hs v id' b' hv hvoid' ⟨b', hb', rfl⟩
        exact ⟨id'', hadd.finds hid''⟩
    exact hfound.of_key_eq hkey'

/-- To intern types keeps the base types of each found. -/
theorem FindsLeaves.interns (hs : FindsLeaves s.2) (h : Interns ts s s') : FindsLeaves s'.2 := by
  induction h with
  | refl => exact hs
  | add _ _ hnew hd ih => exact ih.add hnew hd

/-- After types have been interned, a base type is found if it was found before, or one of them
mentions it. -/
theorem FindsLeaves.found_internAll_iff (hs : FindsLeaves s.2) (ts : List (TypeExpr Attr))
    (hvoid : b ≠ .void) :
    (internAll ts s).2.Found (.base [] b) ↔
      s.2.Found (.base [] b) ∨ ∃ t ∈ ts, t.Mentions s.2.mode b := by
  have hinterns := internAll_interns ts s
  constructor
  · rintro ⟨id, hid⟩
    rcases hinterns.finds_cases hid with hid | ⟨u, hu, hkey⟩
    · exact .inl ⟨id, hid⟩
    · obtain ⟨t, ht, hu⟩ := List.mem_flatMap.1 hu
      obtain ⟨b', rfl, -⟩ := exists_base_of_key_eq hkey
      have hb' := (leavesInside t.canonical).closure hu (List.mem_singleton_self b')
      rw [leaves_canonical] at hb'
      exact .inr ⟨t, ht, b', hb', hkey⟩
  · rintro (⟨id, hid⟩ | ⟨t, ht, b', hb', hkey⟩)
    · exact ⟨id, hinterns.finds hid⟩
    · obtain ⟨id, hid⟩ := found_internAll ht s
      have hmentions : t.canonical.Mentions (internAll ts s).2.mode b := by
        rw [hinterns.mode]
        exact ⟨b', by rwa [leaves_canonical], hkey⟩
      exact hs.interns hinterns _ id b hid hvoid hmentions

end TypeTable

end DebugInfo
