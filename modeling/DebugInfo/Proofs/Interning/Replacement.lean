import DebugInfo.Proofs.Interning.Run

/-!
# Interning is blind to descriptors

Interning looks for keys and takes ids, but it does not look into the descriptors that are there.
So if one of them is replaced, it makes no difference whether types are interned before or
afterwards.
-/

namespace DebugInfo.TypeTable

open TypeExpr

variable {table : TypeTable} {id : EntryId} {d d' : Descriptor}

/-! ## Replacing -/

/-- Of two replacements under one id the later one stands. -/
theorem replace_replace : (table.replace id d).replace id d' = table.replace id d' := by
  have hdescriptors : (table.descriptors.insert id d).insert id d' =
      table.descriptors.insert id d' := by
    refine Std.ExtTreeMap.ext_getElem? fun id' => ?_
    simp only [Std.ExtTreeMap.getElem?_insert]
    split <;> rfl
  simp only [replace, hdescriptors]

theorem get?_replace_self (table : TypeTable) (id : EntryId) (d : Descriptor) :
    (table.replace id d).get? id = some d := by
  rw [get?_replace, if_pos rfl]

/-! ## Interning -/

/-- The state with another descriptor for an id. -/
def replaceIn (id : EntryId) (d : Descriptor) (s : State) : State := (s.1, s.2.replace id d)

/-- The computation does the same whatever is stored under an id that was handed out. -/
structure Blind {α : Type} (m : InternM α) : Prop where
  allocated : ∀ s, s.1.allocated ≤ (m s).2.1.allocated
  replaceIn : ∀ s id d, id.raw < s.1.allocated →
    m (replaceIn id d s) = ((m s).1, TypeTable.replaceIn id d (m s).2)

namespace Blind

variable {α β : Type} {m : InternM α} {make : InternM Descriptor} {t r : CanonicalType}

theorem pure (a : α) : Blind (Pure.pure a) := ⟨fun _ => Nat.le_refl _, fun _ _ _ _ => rfl⟩

/-- Two computations in a row look at no descriptor if neither does. -/
theorem bind {f : α → InternM β} (hm : Blind m) (hf : ∀ a, Blind (f a)) : Blind (m >>= f) where
  allocated s := Nat.le_trans (hm.allocated s) ((hf (m s).1).allocated (m s).2)
  replaceIn s id d hid := by
    have hbind (s : State) : (m >>= f) s = f (m s).1 (m s).2 := rfl
    rw [hbind, hbind, hm.replaceIn s id d hid]
    exact (hf (m s).1).replaceIn (m s).2 id d (Nat.lt_of_lt_of_le hid (hm.allocated s))

theorem map {f : α → β} (hm : Blind m) : Blind (f <$> m) := hm.bind fun a => .pure (f a)

/-- The fresh id is another one than that of the replaced descriptor. -/
theorem add (t : CanonicalType) (e : Descriptor) : Blind (add t e) where
  allocated _ := Nat.le_succ _
  replaceIn s id d hid := by
    have hcomm : (s.2.descriptors.insert id d).insert s.1.fresh.1 e =
        (s.2.descriptors.insert s.1.fresh.1 e).insert id d := by
      refine Std.ExtTreeMap.ext_getElem? fun id' => ?_
      simp only [Std.ExtTreeMap.getElem?_insert, Std.compare_eq_iff_eq]
      split
      · next hfresh =>
        rw [if_neg]
        rintro rfl
        rw [← hfresh] at hid
        exact Nat.lt_irrefl _ hid
      · rfl
    simp only [TypeTable.add, TypeTable.replaceIn, replace, hcomm]

/-- To intern a type looks at its key only. -/
theorem internAs (hmake : Blind make) : Blind (internAs t make) where
  allocated s := by
    unfold TypeTable.internAs
    split
    · exact Nat.le_refl _
    · exact (hmake.bind fun d => add t d).allocated s
  replaceIn s id d hid := by
    have hfind : (TypeTable.replaceIn id d s).2.find? t = s.2.find? t := rfl
    unfold TypeTable.internAs
    rw [hfind]
    cases s.2.find? t with
    | some _ => rfl
    | none => exact (hmake.bind fun d => add t d).replaceIn s id d hid

theorem internLayer (hmake : Blind make) (qs : List Qualifier) : Blind (internLayer t make qs) := by
  induction qs with
  | nil => exact hmake.internAs
  | cons q qs ih => exact ih.map.internAs

/-- To intern a canonical type looks at no descriptor if to describe it does not. -/
theorem internCanonical (h : Blind (describe t)) : Blind (internCanonical t) :=
  h.internLayer t.attrs

theorem internResult (h : Blind (describe r)) : Blind (internResult r) := by
  unfold TypeTable.internResult
  split
  · exact .pure none
  · exact h.internCanonical.map

theorem describeParams {ps : List (Name × CanonicalType)} (h : ∀ p ∈ ps, Blind (describe p.2)) :
    Blind (describeParams ps) := by
  induction ps with
  | nil => exact .pure []
  | cons p ps ih =>
    have hps := ih fun p' hp' => h p' (List.mem_cons_of_mem p hp')
    exact (h p List.mem_cons_self).internCanonical.bind fun _ => hps.bind fun _ => .pure _

end Blind

/-- To describe a type looks at no descriptor in the table. -/
theorem blind_describe (t : CanonicalType) : Blind (describe t) := by
  induction t using TypeExpr.induct with
  | base qs b =>
    rw [describe]
    exact .pure _
  | pointer qs t ih =>
    rw [describe]
    exact ih.internCanonical.map
  | array qs t n ih =>
    rw [describe]
    split
    · exact ih.map
    · exact ih.internCanonical.map
  | function qs r ps v ihr ihps =>
    rw [describe_function]
    exact ihr.internResult.bind fun _ => (Blind.describeParams ihps).bind fun _ => .pure _
  | unprototyped qs r v ih =>
    rw [describe_unprototyped]
    exact ih.internResult.map

/-- It does not matter whether a descriptor is replaced before or after a type is interned. -/
theorem intern_replaceIn {s : State} (hid : id.raw < s.1.allocated) (t : TypeExpr Attr) :
    intern t (replaceIn id d s) = ((intern t s).1, replaceIn id d (intern t s).2) :=
  (blind_describe t.canonical).internCanonical.replaceIn s id d hid

end DebugInfo.TypeTable
