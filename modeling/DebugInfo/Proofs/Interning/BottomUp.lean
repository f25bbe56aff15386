import Mathlib.Logic.Relation
import DebugInfo.Proofs.Links.Types

/-!
# Types after their parts

A type is added after the types it is made of, so its id is larger than theirs, and what is new has
the ids that were taken, the last one being that of the type itself.  Only what a definition writes
into a descriptor, members of a composite and the target of a typedef name, may lead back.

An array takes its dimensions from the plain arrays it is made of, so its elements are none.  What
is found of another type is no array descriptor either, although the key it is found under may be
that of a type that is written differently: the key tells plain arrays from everything else.
-/

namespace DebugInfo

namespace Descriptor

variable {R : CanonicalType → EntryId → Prop} {d : Descriptor} {t : CanonicalType}

/-- The result that fits a type is related to some type, if there is one. -/
theorem FitsResult.of_mem {result : Option EntryId} (h : FitsResult R result t) :
    ∀ id ∈ result.toList, ∃ u, R u id := by
  intro id hid
  cases result with
  | none => cases hid
  | some r =>
    cases List.mem_singleton.1 hid
    exact ⟨t, h.2⟩

/-- Each parameter that fits a type is related to some type. -/
theorem FitsParams.of_mem {ids : List (Name × EntryId)} {ps : List (Name × CanonicalType)}
    (h : FitsParams R ids ps) : ∀ id ∈ ids.map (·.2), ∃ u, R u id := by
  induction h with
  | nil => exact fun id hid => nomatch hid
  | @cons i p _ _ hip _ ih =>
    intro id hid
    rcases List.mem_cons.1 hid with rfl | hid
    · exact ⟨p.2, hip.2⟩
    · exact ih id hid

/-- The parts in a descriptor are those of the type that it fits. -/
theorem Fits.of_mem_parts (h : d.Fits R t) : ∀ part ∈ d.parts, ∃ u, R u part := by
  induction h with
  | base b => cases b <;> exact fun part hpart => nomatch hpart
  | pointer h => exact fun part hpart => ⟨_, List.mem_singleton.1 hpart ▸ h⟩
  | array _ h n => exact fun part hpart => ⟨_, List.mem_singleton.1 hpart ▸ h⟩
  | dimension _ _ n ih => exact ih
  | function hr hps v =>
    intro part hpart
    rcases List.mem_append.1 hpart with hpart | hpart
    · exact hr.of_mem part hpart
    · exact hps.of_mem part hpart
  | unprototyped hr v =>
    intro part hpart
    rcases List.mem_append.1 hpart with hpart | hpart
    · exact hr.of_mem part hpart
    · cases hpart
  | qualified _ h => exact fun part hpart => ⟨_, List.mem_singleton.1 hpart ▸ h⟩

/-- An array descriptor has a dimension, and its elements are no plain arrays. -/
theorem Fits.of_array {element : EntryId} {lengths : List (Option Nat)}
    (h : (Descriptor.array element lengths).Fits R t) :
    lengths ≠ [] ∧ ∃ u, u.isPlainArray = false ∧ R u element := by
  generalize hd : Descriptor.array element lengths = d at h
  induction h generalizing lengths with
  | base b => cases b <;> cases hd
  | array ht h n =>
    cases hd
    exact ⟨List.cons_ne_nil _ _, _, ht, h⟩
  | dimension _ _ n ih =>
    cases hd
    exact ⟨List.cons_ne_nil _ _, (ih rfl).2⟩
  | _ => cases hd

end Descriptor

/-- What is updated is not made of other types. -/
theorem TypeUpdate.parts_eq_nil {u : TypeUpdate} {d d' : Descriptor} (h : u.result? d = some d') :
    d.parts = [] ∧ d'.parts = [] := by
  cases u <;> cases d <;> simp only [result?, Option.some.injEq, reduceCtorEq] at h <;> subst h <;>
    exact ⟨rfl, rfl⟩

/-- If what a descriptor holds of a type is an array without qualifiers, then the type is one. -/
theorem TypeExpr.isPlainArray_of_plain_eq {t e : CanonicalType} {n : Option Nat}
    (h : t.plain = .array [] e n) : t.isPlainArray = true := by
  cases t <;> simp only [plain, array.injEq, reduceCtorEq] at h
  rw [h.1]
  rfl

namespace TypeTable

open TypeExpr

/-- The descriptor under the id is an array. -/
def IsArray (table : TypeTable) (id : EntryId) : Prop :=
  ∃ element lengths, table.get? id = some (.array element lengths)

/-- The first id is that of a type that the second one is made of. -/
def Part (table : TypeTable) (part id : EntryId) : Prop :=
  ∃ d, table.get? id = some d ∧ part ∈ d.parts

/-- Every type comes after the types it is made of, no array has an array as its element, and every
array has a dimension. -/
structure BottomUp (table : TypeTable) : Prop where
  parts : ∀ id d, table.get? id = some d → ∀ part ∈ d.parts, table.Has part ∧ part.raw < id.raw
  folded : ∀ id element lengths, table.get? id = some (.array element lengths) →
    ¬ table.IsArray element
  lengths : ∀ id element lengths, table.get? id = some (.array element lengths) → lengths ≠ []

variable {s s' : State} {ts : List CanonicalType} {t : CanonicalType} {id : EntryId}
  {d d' : Descriptor}

theorem bottomUp_empty (mode : KeyMode) : BottomUp (empty mode) := by
  constructor <;> intro id <;> simp [get?, empty]

/-- Whatever a type is made of, at any depth, has a smaller id. -/
theorem BottomUp.lt_of_transGen {table : TypeTable} (h : table.BottomUp) {x y : EntryId}
    (hxy : Relation.TransGen table.Part x y) : x.raw < y.raw := by
  induction hxy with
  | single hpart =>
    obtain ⟨d, hd, hmem⟩ := hpart
    exact (h.parts _ d hd _ hmem).2
  | tail _ hpart ih =>
    obtain ⟨d, hd, hmem⟩ := hpart
    exact Nat.lt_trans ih (h.parts _ d hd _ hmem).2

/-! ## Interning -/

/-- An id under which a type is found is in the table. -/
theorem Sound.has_of_finds (hs : Sound s) (h : s.2.Finds t id) : s.2.Has id :=
  (hs.represents_of_find? h).get?

/-- What is found of a type that is no plain array is no array descriptor. -/
theorem BottomUp.not_isArray (h : s.2.BottomUp) (hs : Sound s) (hid : s.2.Finds t id)
    (ht : t.isPlainArray = false) : ¬ s.2.IsArray id := by
  rintro ⟨element, lengths, hd⟩
  obtain ⟨n, u, hu, hm⟩ := hs.represents_of_find? hid
  cases n with
  | zero => cases hu
  | succ n =>
    rw [unfold, hd, Option.bind_some] at hu
    obtain ⟨v, -, rfl⟩ := Option.map_eq_some_iff.1 hu
    obtain _ | ⟨l, lengths⟩ := lengths
    · exact h.lengths id element [] hd rfl
    -- A type that matches an array is an array without qualifiers itself, in either mode.
    · rw [Matches, Descriptor.nested, List.foldr_cons, reduced_array] at hm
      obtain ⟨e, he⟩ := exists_of_reduced_eq_array hm.symm
      rw [isPlainArray_of_plain_eq he] at ht
      cases ht

/-- To add a type whose parts are there keeps the table built bottom up. -/
theorem BottomUp.add (h : s.2.BottomUp) (hs : Sound s) (hnew : s.2.find? t = none)
    (hd : d.Fits s.2.Finds t) : (add t d s).2.2.BottomUp := by
  have hext : s.2.Extends (TypeTable.add t d s).2.2 := extends_add hs hnew d
  have hold {id' : EntryId} (hid' : s.2.Has id') :
      (TypeTable.add t d s).2.2.get? id' = s.2.get? id' := by
    obtain ⟨e, he⟩ := hid'
    rw [get?_add, if_neg (hs.ne_of_get? t d he)]
  have harray {id' : EntryId} (hid' : s.2.Has id') :
      (TypeTable.add t d s).2.2.IsArray id' ↔ s.2.IsArray id' := by
    rw [IsArray, hold hid', IsArray]
  constructor
  · intro id e he part hpart
    rw [get?_add] at he
    split at he
    · next heq =>
      cases he
      obtain ⟨u, hu⟩ := hd.of_mem_parts part hpart
      obtain ⟨e, he⟩ := hs.has_of_finds hu
      exact ⟨hext.has ⟨e, he⟩, heq ▸ hs.allocated part e he⟩
    · exact (h.parts id e he part hpart).imp_left hext.has
  · intro id element lengths he
    rw [get?_add] at he
    split at he
    · cases he
      obtain ⟨-, u, hu, hfound⟩ := hd.of_array
      rw [harray (hs.has_of_finds hfound)]
      exact h.not_isArray hs hfound hu
    · rw [harray (h.parts id _ he element (List.mem_singleton_self _)).1]
      exact h.folded id element lengths he
  · intro id element lengths he
    rw [get?_add] at he
    split at he
    · cases he
      exact hd.of_array.1
    · exact h.lengths id element lengths he

/-- To intern types keeps the table built bottom up. -/
theorem BottomUp.interns (h : s.2.BottomUp) (hs : Sound s) (hi : Interns ts s s') :
    s'.2.BottomUp := by
  induction hi with
  | refl => exact h
  | add hi _ hnew hd ih => exact ih.add (hs.interns hi).1 hnew hd

/-- Without new ids there is nothing new. -/
theorem Interns.eq_of_allocated_le (h : Interns ts s s') (hle : s'.1.allocated ≤ s.1.allocated) :
    s' = s := by
  cases h with
  | refl => rfl
  | add h _ _ _ => exact absurd hle (Nat.not_le.2 (Nat.lt_succ_of_le h.allocated))

/-- A type is found, or its own id is the last one that is taken. -/
theorem intern_cases (t : TypeExpr Attr) (s : State) :
    (intern t s).2 = s ∨ (intern t s).1.raw + 1 = (intern t s).2.1.allocated := by
  have hlayer (t : CanonicalType) (make : InternM Descriptor) :
      (internAs t make s).2 = s ∨
        (internAs t make s).1.raw + 1 = (internAs t make s).2.1.allocated := by
    unfold internAs
    split
    · exact .inl rfl
    · exact .inr rfl
  unfold intern internCanonical
  cases t.canonical.attrs with
  | nil => exact hlayer _ _
  | cons q qs => exact hlayer _ _

/-- What is interned last has the largest id, unless it was there before. -/
theorem Sound.intern_last (hs : Sound s) (t : TypeExpr Attr) :
    if s.1.allocated < (intern t s).2.1.allocated then
      (intern t s).1.raw + 1 = (intern t s).2.1.allocated
    else s.2.Has (intern t s).1 := by
  have hinterns := (intern_interning t s).1
  split
  · next hlt =>
    refine (intern_cases t s).resolve_left fun heq => ?_
    rw [heq] at hlt
    exact Nat.lt_irrefl _ hlt
  · next hle =>
    have heq := hinterns.eq_of_allocated_le (Nat.le_of_not_lt hle)
    obtain ⟨-, -, hid⟩ := intern_adds t s hs
    rw [heq] at hid
    exact hid.represents.get?

/-! ## Runs -/

/-- A descriptor may be updated in a table that is built bottom up. -/
theorem BottomUp.replace {u : TypeUpdate} (h : s.2.BottomUp) (hd : s.2.get? id = some d)
    (hd' : u.result? d = some d') : (s.2.replace id d').BottomUp := by
  have hnil : d'.parts = [] := (TypeUpdate.parts_eq_nil hd').2
  have hext : s.2.Extends (s.2.replace id d') := extends_replace hd hd'
  have harray {id' element : EntryId} {lengths : List (Option Nat)}
      (he : (s.2.replace id d').get? id' = some (.array element lengths)) :
      s.2.get? id' = some (.array element lengths) := by
    rw [get?_replace] at he
    split at he
    · cases he
      cases hnil
    · exact he
  constructor
  · intro id' e he part hpart
    rw [get?_replace] at he
    split at he
    · cases he
      rw [hnil] at hpart
      cases hpart
    · exact (h.parts id' e he part hpart).imp_left hext.has
  · rintro id' element lengths he ⟨element', lengths', he'⟩
    exact h.folded id' element lengths (harray he) ⟨element', lengths', harray he'⟩
  · exact fun id' element lengths he => h.lengths id' element lengths (harray he)

/-- No action on the table breaks the order. -/
theorem BottomUp.perform (h : s.2.BottomUp) (hs : Sound s) (a : Action) :
    (perform s a).2.BottomUp := by
  cases a with
  | intern t => exact h.interns hs (intern_interning t s).1
  | update id u =>
    rcases perform_update s id u with heq | ⟨d, d', hd, hd', heq⟩
    · rwa [heq]
    · rw [heq]
      exact h.replace hd hd'
  | skip => exact h

theorem BottomUp.runFrom (h : s.2.BottomUp) (hs : Sound s) (actions : List Action) :
    (runFrom s actions).2.BottomUp := by
  induction actions generalizing s with
  | nil => exact h
  | cons a actions ih => exact ih (h.perform hs a) (perform_sound hs a).1

/-- Interning a type after a run takes some ids, gives them to what it adds and changes nothing
else; the last one is that of the type, which is there already if none is taken.  Every type is
newer than what it is made of, so there is no way back through parts, and arrays are folded. -/
theorem run_bottomUp (mode : KeyMode) (ids : IdSupply) (actions : List Action)
    (t : TypeExpr Attr) :
    let s := runFrom (ids, .empty mode) actions
    let id := (intern t s).1
    let s' := (intern t s).2
    s.1.allocated ≤ s'.1.allocated ∧
    (∀ id', s.2.get? id' = none ∧ s'.2.Has id' ↔
      s.1.allocated ≤ id'.raw ∧ id'.raw < s'.1.allocated) ∧
    (∀ id' d, s.2.get? id' = some d → s'.2.get? id' = some d) ∧
    (if s.1.allocated < s'.1.allocated then id.raw + 1 = s'.1.allocated else s.2.Has id) ∧
    s.2.BottomUp ∧ ∀ id', ¬ Relation.TransGen s.2.Part id' id' := by
  intro s id s'
  obtain ⟨hs, -⟩ := runFrom_sound (.empty ids mode) actions
  have hbottomUp : s.2.BottomUp :=
    BottomUp.runFrom (s := (ids, .empty mode)) (bottomUp_empty mode) (.empty ids mode) actions
  have henlarges := hs.enlarges (intern_interning t s).1
  have hacyclic (id' : EntryId) : ¬ Relation.TransGen s.2.Part id' id' :=
    fun hcycle => Nat.lt_irrefl _ (hbottomUp.lt_of_transGen hcycle)
  exact ⟨henlarges.allocated, fun id' => (henlarges.taken_iff id').symm, henlarges.descriptor,
    hs.intern_last t, hbottomUp, hacyclic⟩

/-- A list: a node has a pointer to a node in it, so the way back is through a member. -/
theorem run_bottomUp_node :
    let node : TypeExpr Attr := .base [] (.composite .struct ⟨4⟩ ⟨9⟩)
    let next : Member := { name := ⟨5⟩, type := ⟨1⟩ }
    let composite : Composite :=
      { kind := .struct, tag := ⟨4⟩, isDefined := true, members := [next] }
    let actions : List Action := [.intern (.pointer [] node), .update ⟨0⟩ (.members [next]), .skip]
    let s := runFrom ({}, .empty .spelling) actions
    let t : TypeExpr Attr := .array [] (.array [] node (some 3)) (some 2)
    s.2.get? ⟨0⟩ = some (.composite composite) ∧ s.2.get? ⟨1⟩ = some (.pointer ⟨0⟩) ∧
      (intern t s).2.2.get? ⟨0⟩ = some (.composite composite) ∧
      (intern t s).2.2.get? ⟨3⟩ = some (.array ⟨0⟩ [some 2, some 3]) ∧
      (intern t s).1.raw + 1 = (intern t s).2.1.allocated ∧
      s.2.Has ⟨0⟩ ∧ (⟨0⟩ : EntryId).raw < 1 := by
  intro node next composite actions s t
  have hnode : s.2.get? ⟨0⟩ = some (.composite composite) := by decide +kernel
  have hpointer : s.2.get? ⟨1⟩ = some (.pointer ⟨0⟩) := by decide +kernel
  have harray : (intern t s).2.2.get? ⟨3⟩ = some (.array ⟨0⟩ [some 2, some 3]) := by decide +kernel
  have hlt : s.1.allocated < (intern t s).2.1.allocated := by decide +kernel
  have hrun := run_bottomUp .spelling {} actions t
  -- Nothing below needs to see what the run leads to.
  extract_lets _ _ at hrun
  clear_value s
  obtain ⟨-, -, hkept, hlast, hbottomUp, -⟩ := hrun
  rw [if_pos hlt] at hlast
  obtain ⟨hhas, hless⟩ := hbottomUp.parts ⟨1⟩ _ hpointer ⟨0⟩ (List.mem_singleton_self _)
  exact ⟨hnode, hpointer, hkept ⟨0⟩ _ hnode, harray, hlast, hhas, hless⟩

end TypeTable

end DebugInfo
