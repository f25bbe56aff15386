import DebugInfo.Proofs.Interning.Invariant

/-!
# Interning keeps the table sound

In a sound table the ids that are found represent the types they are found of.  So a descriptor that
fits a type describes it, and adding it keeps the table sound.
-/

namespace DebugInfo.TypeTable

open TypeExpr Descriptor

/-- The table leads from the type to the id, and back. -/
structure Interned (table : TypeTable) (id : EntryId) (t : CanonicalType) : Prop where
  find? : table.find? t = some id
  represents : table.Represents id t

variable {table : TypeTable} {t r : CanonicalType} {d : Descriptor}

/-- A result that fits what is represented is represented. -/
theorem representsResult_of_fits {result : Option EntryId}
    (h : FitsResult (fun t id => table.Represents id t) result r) :
    table.RepresentsResult result r := by
  cases result with
  | none => exact (isPlainVoid_iff r).1 h
  | some id => exact h.2

/-- If the ids in a descriptor represent the parts of the type, it describes the type. -/
theorem describes_of_fits (h : d.Fits (fun t id => table.Represents id t) t) :
    table.Describes d t := by
  induction h with
  | base b => exact describes_ofBase b
  | pointer h => exact describes_pointer h
  | array _ h n => exact describes_array n h
  | dimension ht _ n ih => exact describes_addDimension n ih ht
  | function hr hps v => exact describes_function v (representsResult_of_fits hr) hps
  | unprototyped hr v => exact describes_unprototyped v (representsResult_of_fits hr)
  | @qualified q qs id t ht h =>
    have hd := describes_qualified q h
    rwa [addAttr, attrs_withAttrs, withAttrs_withAttrs, ← ht, withAttrs_attrs] at hd

variable {s s' : State} {ts : List CanonicalType}

/-- To intern types keeps the table sound, and it grows. -/
theorem Sound.interns (hs : Sound s) (h : Interns ts s s') : Sound s' ∧ Grows s s' := by
  induction h with
  | refl => exact ⟨hs, .refl s⟩
  | add _ _ hnew hd ih =>
    obtain ⟨hsound, hgrows⟩ := ih
    have hdescribes := describes_of_fits (hd.mono fun _ _ => hsound.represents_of_find?)
    exact ⟨sound_add hsound hnew hdescribes, hgrows.trans (grows_add hsound hnew _)⟩

/-- Interning a type keeps a table sound and finds the type afterwards. -/
theorem intern_adds (t : TypeExpr Attr) (s : State) (hs : Sound s) :
    Sound (intern t s).2 ∧ Grows s (intern t s).2 ∧
      (intern t s).2.2.Interned (intern t s).1 t.canonical := by
  obtain ⟨hinterns, hfinds⟩ := intern_interning t s
  obtain ⟨hsound, hgrows⟩ := hs.interns hinterns
  exact ⟨hsound, hgrows, hfinds, hsound.represents_of_find? hfinds⟩

end DebugInfo.TypeTable
