import DebugInfo.Proofs.Links.Types
import Mathlib.Order.Interval.Set.Nat

/-!
# The order of interning

A structural key tells a type from all others.  So what is found of a type was added for that very
type, and its descriptor leads to what is found of the parts.  Hence the closure of a type that is
found is found as well, and what is found after a list of types was interned is what is in their
closures, in whatever order they came.

Two tables in which the same types are found differ in the numbers of the ids only.
-/

namespace DebugInfo

namespace Descriptor

/-- Every id in the descriptor goes through `f`. -/
def mapIds (f : EntryId → EntryId) : Descriptor → Descriptor
  | .pointer target => .pointer (f target)
  | .array element lengths => .array (f element) lengths
  | .composite c =>
      .composite { c with members := c.members.map fun m => { m with type := f m.type } }
  | .function result params =>
      .function (result.map f) (params.map (·.map fun p => (p.1, f p.2)))
  | .alias a => .alias { a with target := a.target.map f }
  | .qualified q inner => .qualified q (f inner)
  | d => d

variable {R R' : CanonicalType → EntryId → Prop} {f : EntryId → EntryId} {d d' : Descriptor}
  {t : CanonicalType}

theorem mapIds_ofBase (b : BaseType) : (ofBase b).mapIds f = ofBase b := by
  cases b <;> rfl

/-- Below the outermost qualifier of a type there is the type without it. -/
theorem Fits.exists_inner {q : Qualifier} {qs : List Qualifier} (h : d.Fits R t)
    (ht : t.attrs = q :: qs) : ∃ id, R (t.withAttrs qs) id := by
  cases h with
  | qualified ht' h =>
    cases ht.symm.trans ht'
    exact ⟨_, h⟩
  | _ => cases ht

section Renaming

variable (hf : ∀ t id id', R t id → R' t id' → id' = f id)
include hf

/-- Two results that fit one type differ by the renaming. -/
theorem FitsResult.eq_map {result result' : Option EntryId} (h : FitsResult R result t)
    (h' : FitsResult R' result' t) : result' = result.map f := by
  cases result with
  | none =>
    cases result' with
    | none => rfl
    | some id' => exact absurd (h'.1.symm.trans h) Bool.false_ne_true
  | some id =>
    cases result' with
    | none => exact absurd (h.1.symm.trans h') Bool.false_ne_true
    | some id' => exact congrArg some (hf t id id' h.2 h'.2)

theorem FitsParams.eq_map {ids ids' : List (Name × EntryId)} {ps : List (Name × CanonicalType)}
    (h : FitsParams R ids ps) (h' : FitsParams R' ids' ps) :
    ids' = ids.map fun p => (p.1, f p.2) := by
  induction h generalizing ids' with
  | nil =>
    cases h'
    rfl
  | @cons i p ids ps hip _ ih =>
    cases h' with
    | @cons i' _ ids' _ hip' h' =>
      have hi : i' = (i.1, f i.2) := Prod.ext (hip'.1.trans hip.1.symm) (hf _ _ _ hip.2 hip'.2)
      rw [hi, ih h', List.map_cons]

/-- A type has one descriptor, up to the numbers of its parts. -/
theorem Fits.eq_mapIds (h : d.Fits R t) (h' : d'.Fits R' t) : d' = d.mapIds f := by
  induction h generalizing d' with
  | base b => rw [h'.eq_ofBase, mapIds_ofBase]
  | pointer hid =>
    cases h' with
    | pointer hid' => rw [mapIds, hf _ _ _ hid hid']
    | qualified ht => cases ht
  | array he hid n =>
    cases h' with
    | array _ hid' => rw [mapIds, hf _ _ _ hid hid']
    | dimension he' => exact absurd (he.symm.trans he') Bool.false_ne_true
    | qualified ht => cases ht
  | dimension he _ n ih =>
    cases h' with
    | array he' => exact absurd (he'.symm.trans he) Bool.false_ne_true
    | dimension _ h' =>
      cases ih h'
      rfl
    | qualified ht => cases ht
  | function hr hps v =>
    cases h' with
    | function hr' hps' => rw [mapIds, hr.eq_map hf hr', Option.map_some, hps.eq_map hf hps']
    | qualified ht => cases ht
  | unprototyped hr v =>
    cases h' with
    | unprototyped hr' => rw [mapIds, hr.eq_map hf hr', Option.map_none]
    | qualified ht => cases ht
  | qualified ht hid =>
    cases h' with
    | qualified ht' hid' =>
      cases ht.symm.trans ht'
      rw [mapIds, hf _ _ _ hid hid']
    | _ => cases ht

end Renaming

end Descriptor

namespace TypeTable

open TypeExpr

/-! ## Tables with structural keys -/

/-- What is found of a type has a descriptor that fits the type. -/
structure Faithful (s : State) : Prop where
  sound : Sound s
  mode : s.2.mode = .structural
  fits : ∀ t id, s.2.Finds t id → ∃ d, s.2.get? id = some d ∧ d.Fits s.2.Finds t

/-- The type has an id in the table. -/
def Found (table : TypeTable) (t : CanonicalType) : Prop := ∃ id, table.Finds t id

variable {s s' : State} {ts : List CanonicalType} {t u : CanonicalType} {id : EntryId}

theorem Faithful.empty (ids : IdSupply) : Faithful (ids, .empty .structural) where
  sound := .empty ids .structural
  mode := rfl
  fits t id h := by simp [Finds, find?, TypeTable.empty] at h

/-- With structural keys, types that have the same key are equal. -/
theorem Faithful.eq_of_key_eq (hs : Faithful s)
    (h : TypeKey.of s.2.mode t = TypeKey.of s.2.mode u) : t = u := by
  rw [hs.mode] at h
  exact TypeKey.of_structural_inj.1 h

/-- To add a type that is not found keeps the table faithful. -/
theorem Faithful.add {d : Descriptor} (hs : Faithful s) (hnew : s.2.find? t = none)
    (hd : d.Fits s.2.Finds t) : Faithful (add t d s).2 := by
  have hadd : Interns [t] s (TypeTable.add t d s).2 :=
    .add .refl (List.mem_singleton_self t) hnew hd
  refine ⟨(hs.sound.interns hadd).1, hs.mode, fun u id hid => ?_⟩
  have hmode : (TypeTable.add t d s).2.2.mode = s.2.mode := rfl
  rw [Finds, find?, hmode, keys_add] at hid
  split at hid
  · next hkey =>
    cases hs.eq_of_key_eq hkey
    cases hid
    exact ⟨d, by rw [get?_add, if_pos rfl], hd.mono fun _ _ => hadd.finds⟩
  · obtain ⟨d', hd', hfits⟩ := hs.fits u id hid
    exact ⟨d', (hs.sound.enlarges hadd).descriptor id d' hd', hfits.mono fun _ _ => hadd.finds⟩

/-- To intern types keeps the table faithful. -/
theorem Faithful.interns (hs : Faithful s) (h : Interns ts s s') : Faithful s' := by
  induction h with
  | refl => exact hs
  | add _ _ hnew hd ih => exact ih.add hnew hd

/-- No two types are found under one id. -/
theorem Faithful.injective (hs : Faithful s) (ht : s.2.Finds t id) (hu : s.2.Finds u id) : t = u :=
  hs.eq_of_key_eq (hs.sound.injective _ _ id ht hu)

/-- The ids in use are those under which a type is found. -/
theorem Faithful.has_iff (hs : Faithful s) : s.2.Has id ↔ ∃ t, s.2.Finds t id := by
  constructor
  · rintro ⟨d, hd⟩
    obtain ⟨k, hk⟩ := hs.sound.keyed id d hd
    obtain ⟨t, rfl, -⟩ := hs.sound.represents k id hk
    exact ⟨t, hk⟩
  · rintro ⟨t, ht⟩
    obtain ⟨d, hd, -⟩ := hs.fits t id ht
    exact ⟨d, hd⟩

/-! ## What is found -/

/-- Below a type that is found there are its layers, down to the one that the descriptor is of. -/
theorem Faithful.found_layers (hs : Faithful s) {qs : List Qualifier}
    (h : s.2.Found (t.withAttrs qs)) :
    (∀ u ∈ layers t qs, s.2.Found u) ∧ ∃ d : Descriptor, d.Fits s.2.Finds (t.withAttrs []) := by
  obtain ⟨id, hid⟩ := h
  obtain ⟨d, -, hd⟩ := hs.fits _ id hid
  induction qs generalizing id d with
  | nil =>
    refine ⟨fun u hu => ?_, d, hd⟩
    cases List.mem_singleton.1 hu
    exact ⟨id, hid⟩
  | cons q qs ih =>
    obtain ⟨inner, hinner⟩ := hd.exists_inner (attrs_withAttrs (q :: qs) t)
    rw [withAttrs_withAttrs] at hinner
    obtain ⟨d', -, hd'⟩ := hs.fits _ inner hinner
    obtain ⟨hfound, hplain⟩ := ih inner hinner d' hd'
    refine ⟨fun u hu => ?_, hplain⟩
    rcases List.mem_cons.1 hu with rfl | hu
    · exact ⟨id, hid⟩
    · exact hfound u hu

/-- What is claimed of a type: what is inside of it is found if a descriptor fits it. -/
def InsideFound (table : TypeTable) (t : CanonicalType) : Prop :=
  ∀ d : Descriptor, d.Fits table.Finds (t.withAttrs []) → ∀ u ∈ inside t, table.Found u

/-- If a type is found, then so is everything it is made of. -/
theorem InsideFound.closure (hs : Faithful s) (h : s.2.InsideFound t) (hid : s.2.Finds t id) :
    ∀ u ∈ closure t, s.2.Found u := by
  have ht : s.2.Found (t.withAttrs t.attrs) := ⟨id, by rwa [withAttrs_attrs]⟩
  obtain ⟨hfound, d, hd⟩ := hs.found_layers ht
  intro u hu
  rcases List.mem_append.1 hu with hu | hu
  · exact hfound u hu
  · exact h d hd u hu

/-- If the result of a function fits, then everything that it is made of is found. -/
theorem InsideFound.result (hs : Faithful s) (h : s.2.InsideFound t) {result : Option EntryId}
    (hr : Descriptor.FitsResult s.2.Finds result t) :
    ∀ u ∈ if t.isPlainVoid then [] else TypeExpr.closure t, s.2.Found u := by
  cases result with
  | none =>
    have hvoid : t.isPlainVoid = true := hr
    rw [if_pos hvoid]
    exact fun u hu => nomatch hu
  | some id =>
    rw [if_neg (by simp [hr.1])]
    exact h.closure hs hr.2

theorem InsideFound.params (hs : Faithful s) {ps : List (Name × CanonicalType)}
    (h : ∀ p ∈ ps, s.2.InsideFound p.2) {ids : List (Name × EntryId)}
    (hps : Descriptor.FitsParams s.2.Finds ids ps) : ∀ u ∈ insideParams ps, s.2.Found u := by
  induction hps with
  | nil => exact fun u hu => nomatch hu
  | @cons i p ids ps hip _ ih =>
    intro u hu
    rw [insideParams, List.mem_append] at hu
    rcases hu with hu | hu
    · exact (h p List.mem_cons_self).closure hs hip.2 u hu
    · exact ih (fun p' hp' => h p' (List.mem_cons_of_mem p hp')) u hu

/-- In a faithful table, what is inside of a type that is found is found as well. -/
theorem Faithful.insideFound (hs : Faithful s) (t : CanonicalType) : s.2.InsideFound t := by
  induction t using TypeExpr.induct with
  | base qs b => exact fun d _ u hu => nomatch hu
  | pointer qs t ih =>
    rintro d hd
    cases hd with
    | pointer hid => exact ih.closure hs hid
    | qualified ht => cases ht
  | array qs t n ih =>
    rintro d hd
    rw [inside]
    cases hd with
    | array ht hid =>
      rw [if_neg (by simp [ht])]
      exact ih.closure hs hid
    | dimension ht hd =>
      rw [if_pos ht]
      obtain ⟨e, m, rfl⟩ := (isPlainArray_iff t).1 ht
      exact ih _ hd
    | qualified ht => cases ht
  | function qs r ps v ihr ihps =>
    rintro d hd u hu
    cases hd with
    | function hr hps =>
      rcases List.mem_append.1 hu with hu | hu
      · exact ihr.result hs hr u hu
      · exact InsideFound.params hs ihps hps u hu
    | qualified ht => cases ht
  | unprototyped qs r v ih =>
    rintro d hd
    cases hd with
    | unprototyped hr => exact ih.result hs hr
    | qualified ht => cases ht

/-- A type is found after it has been interned. -/
theorem found_intern (t : TypeExpr Attr) (s : State) : (intern t s).2.2.Found t.canonical :=
  ⟨_, (intern_interning t s).2⟩

/-- Each of several types is found after all of them have been interned. -/
theorem found_internAll {ts : List (TypeExpr Attr)} {t : TypeExpr Attr} (ht : t ∈ ts) (s : State) :
    (internAll ts s).2.Found t.canonical := by
  induction ts generalizing s with
  | nil => cases ht
  | cons t' ts ih =>
    rcases List.mem_cons.1 ht with rfl | ht
    · obtain ⟨id, hid⟩ := found_intern t s
      exact ⟨id, (internAll_interns ts _).finds hid⟩
    · exact ih ht _

/-- After a list of types was interned, what they are made of is found and nothing else. -/
theorem found_internAll_iff (ids : IdSupply) (ts : List (TypeExpr Attr)) (u : CanonicalType) :
    (internAll ts (ids, .empty .structural)).2.Found u ↔ ∃ t ∈ ts, u ∈ closure t.canonical := by
  have hempty : Faithful (ids, .empty .structural) := .empty ids
  have hinterns := internAll_interns ts (ids, .empty .structural)
  constructor
  · rintro ⟨id, hid⟩
    rcases hinterns.finds_cases hid with hid | ⟨v, hv, hkey⟩
    · simp [Finds, find?, TypeTable.empty] at hid
    · cases hempty.eq_of_key_eq hkey
      simpa using hv
  · rintro ⟨t, ht, hu⟩
    obtain ⟨id, hid⟩ := found_internAll ht (ids, .empty .structural)
    have hs := hempty.interns hinterns
    exact (hs.insideFound t.canonical).closure hs hid u hu

/-! ## Renaming -/

/-- `f` is one to one between the ids of the tables, and turns the one table into the other. -/
structure Renames (f : EntryId → EntryId) (table table' : TypeTable) : Prop where
  bijOn : Set.BijOn f {id | table.Has id} {id | table'.Has id}
  find? : ∀ t, table'.find? t = (table.find? t).map f
  descriptor : ∀ id d, table.get? id = some d → table'.get? (f id) = some (d.mapIds f)

/-- Where the same types are found, the ids differ in their numbers only. -/
theorem Faithful.exists_renames (hs : Faithful s) (hs' : Faithful s')
    (hfound : ∀ t, s.2.Found t ↔ s'.2.Found t) : ∃ f, Renames f s.2 s'.2 := by
  have hexists : ∀ id, ∃ id', ∀ t, s.2.Finds t id → s'.2.Finds t id' := by
    intro id
    by_cases hid : ∃ t, s.2.Finds t id
    · obtain ⟨t, ht⟩ := hid
      obtain ⟨id', ht'⟩ := (hfound t).1 ⟨id, ht⟩
      exact ⟨id', fun u hu => hs.injective ht hu ▸ ht'⟩
    · exact ⟨id, fun t ht => absurd ⟨t, ht⟩ hid⟩
  choose f hf using hexists
  have heq : ∀ t id id', s.2.Finds t id → s'.2.Finds t id' → id' = f id :=
    fun t id id' ht ht' => Option.some.inj (ht'.symm.trans (hf id t ht))
  refine ⟨f, ⟨?_, ?_, ?_⟩, ?_, ?_⟩
  · intro id hid
    obtain ⟨t, ht⟩ := hs.has_iff.1 hid
    exact hs'.has_iff.2 ⟨t, hf id t ht⟩
  · intro id hid id₁ hid₁ hsame
    obtain ⟨t, ht⟩ := hs.has_iff.1 hid
    obtain ⟨u, hu⟩ := hs.has_iff.1 hid₁
    have htu : t = u := hs'.injective (hf id t ht) (hsame ▸ hf id₁ u hu)
    subst htu
    exact Option.some.inj (ht.symm.trans hu)
  · intro id' hid'
    obtain ⟨t, ht'⟩ := hs'.has_iff.1 hid'
    obtain ⟨id, ht⟩ := (hfound t).2 ⟨id', ht'⟩
    exact ⟨id, hs.has_iff.2 ⟨t, ht⟩, (heq t id id' ht ht').symm⟩
  · intro t
    cases ht : s.2.find? t with
    | some id => exact hf id t ht
    | none =>
      refine Option.eq_none_iff_forall_ne_some.2 fun id' ht' => ?_
      obtain ⟨id, hid⟩ := (hfound t).2 ⟨id', ht'⟩
      cases ht.symm.trans hid
  · intro id d hd
    obtain ⟨t, ht⟩ := hs.has_iff.1 ⟨d, hd⟩
    obtain ⟨e, he, hfits⟩ := hs.fits t id ht
    obtain ⟨d', hd', hfits'⟩ := hs'.fits t (f id) (hf id t ht)
    cases hd.symm.trans he
    rw [hd', hfits.eq_mapIds heq hfits']

/-! ## The ids that are taken -/

/-- From the empty table on, the ids in use are all those below the next one. -/
theorem Interns.has_iff_lt {mode : KeyMode} (h : Interns ts ({}, .empty mode) s) :
    s.2.Has id ↔ id.raw < s.1.allocated := by
  have htaken := ((Sound.empty {} mode).enlarges h).taken_iff id
  have hnone : (TypeTable.empty mode).get? id = none := by simp [TypeTable.empty, get?]
  constructor
  · exact fun hid => (htaken.2 ⟨hnone, hid⟩).2
  · exact fun hid => (htaken.1 ⟨Nat.zero_le _, hid⟩).2

/-- There are as many ids below a number as it says. -/
theorem ncard_below (n : Nat) : {id : EntryId | id.raw < n}.ncard = n := by
  have himage : {id : EntryId | id.raw < n} = Ident.mk '' Set.Iio n := by
    ext id
    exact ⟨fun h => ⟨id.raw, h, rfl⟩, by rintro ⟨m, hm, rfl⟩; exact hm⟩
  rw [himage, Set.ncard_image_of_injective _ fun _ _ h => congrArg Ident.raw h,
    Set.ncard_Iio_nat]

theorem runFrom_map_intern (s : State) (ts : List (TypeExpr Attr)) :
    runFrom s (ts.map .intern) = internAll ts s := by
  rw [runFrom, List.foldl_map]
  rfl

theorem map_fst_interned (s : State) (ts : List (TypeExpr Attr)) :
    (interned s (ts.map .intern)).map (·.1) = ts := by
  induction ts generalizing s with
  | nil => rfl
  | cons t ts ih => exact congrArg (List.cons t) (ih _)

/-- Types that are interned in another order get as many ids, and other ones in the same places.
Each type is found under the id it got, which is one of those that are renamed. -/
theorem interned_perm {ts ts' : List (TypeExpr Attr)} (h : ts.Perm ts') :
    let start : State := ({}, .empty .structural)
    let s := runFrom start (ts.map .intern)
    let s' := runFrom start (ts'.map .intern)
    s'.1.allocated = s.1.allocated ∧ ∃ f : EntryId → EntryId, Renames f s.2 s'.2 ∧
      ∀ t id, (t, id) ∈ interned start (ts.map .intern) → s.2.lookup t = some id ∧ s.2.Has id ∧
        (t, f id) ∈ interned start (ts'.map .intern) := by
  intro start s s'
  have hs : s = internAll ts start := runFrom_map_intern start ts
  have hs' : s' = internAll ts' start := runFrom_map_intern start ts'
  have hinterns : Interns _ start s := hs ▸ internAll_interns ts start
  have hinterns' : Interns _ start s' := hs' ▸ internAll_interns ts' start
  have hfound : ∀ u, s.2.Found u ↔ s'.2.Found u := by
    intro u
    rw [hs, hs', found_internAll_iff, found_internAll_iff]
    exact exists_congr fun t => and_congr_left' h.mem_iff
  have hempty : Faithful start := .empty {}
  obtain ⟨f, hf⟩ := (hempty.interns hinterns).exists_renames (hempty.interns hinterns') hfound
  refine ⟨?_, f, hf, ?_⟩
  · have hids : Set.BijOn f {id | id.raw < s.1.allocated} {id | id.raw < s'.1.allocated} := by
      simpa only [hinterns.has_iff_lt, hinterns'.has_iff_lt] using hf.bijOn
    rw [← ncard_below s.1.allocated, ← ncard_below s'.1.allocated, ← hids.image_eq,
      hids.injOn.ncard_image]
  · intro t id hmem
    have ht : t ∈ ts' := by
      rw [← h.mem_iff, ← map_fst_interned start ts]
      exact List.mem_map_of_mem hmem
    rw [← map_fst_interned start ts'] at ht
    obtain ⟨⟨t', id'⟩, hmem', rfl⟩ := List.mem_map.1 ht
    have hid := lookup_of_mem_interned hempty.sound hmem
    have hid' := lookup_of_mem_interned hempty.sound hmem'
    have hhas : s.2.Has id := (hempty.interns hinterns).has_iff.2 ⟨t'.canonical, hid⟩
    have hsame : s'.2.lookup t' = some (f id) := by
      rw [lookup, hf.find?]
      exact congrArg (Option.map f) hid
    cases hsame.symm.trans hid'
    exact ⟨hid, hhas, hmem'⟩

/-- Here `int` is interned for itself, there as what a pointer leads to, and ids change places. -/
theorem interned_perm_shared :
    let char : TypeExpr Attr := .base [] (.integer .char)
    let int : TypeExpr Attr := .base [] (.integer .int)
    let pointer : TypeExpr Attr := .pointer [] int
    let start : State := ({}, .empty .structural)
    let run (ts : List (TypeExpr Attr)) := runFrom start (ts.map .intern)
    [char, int, pointer].Perm [pointer, int, char] ∧
      ∃ f, Renames f (run [char, int, pointer]).2 (run [pointer, int, char]).2 ∧
        f ⟨0⟩ = ⟨2⟩ ∧ f ⟨1⟩ = ⟨0⟩ ∧ f ⟨2⟩ = ⟨1⟩ := by
  intro char int pointer start run
  have h : [char, int, pointer].Perm [pointer, int, char] := List.reverse_perm [pointer, int, char]
  have hlog : interned start ([char, int, pointer].map .intern) =
      [(char, ⟨0⟩), (int, ⟨1⟩), (pointer, ⟨2⟩)] := by decide +kernel
  have hlog' : interned start ([pointer, int, char].map .intern) =
      [(pointer, ⟨1⟩), (int, ⟨0⟩), (char, ⟨2⟩)] := by decide +kernel
  obtain ⟨-, f, hf, hids⟩ := interned_perm h
  rw [hlog, hlog'] at hids
  refine ⟨h, f, hf, ?_, ?_, ?_⟩
  · simpa [char, int, pointer] using (hids char ⟨0⟩ (by simp)).2.2
  · simpa [char, int, pointer] using (hids int ⟨1⟩ (by simp)).2.2
  · simpa [char, int, pointer] using (hids pointer ⟨2⟩ (by simp)).2.2

end TypeTable

end DebugInfo
