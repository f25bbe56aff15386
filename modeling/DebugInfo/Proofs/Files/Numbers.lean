import DebugInfo.Sections

/-!
# Numbers of files

When the sections are finished, every file gets a number in every section, whatever the caller
answers.  Names of sections and files are only added, so a number that an earlier enumeration left
behind is that of a section and a file that are still there: after an enumeration there is a number
for a section and a file if and only if there are both.
-/

namespace DebugInfo.Sections

variable {σ : Type} {s : Sections}

def names (s : Sections) : List Name := s.sections.map (·.name)

/-- A section is registered if its name is listed. -/
theorem contains_iff {name : Name} : s.contains name = true ↔ name ∈ s.names := by
  simp [contains, names]

/-- There is a number for the file in the section. -/
def Numbered (s : Sections) (name file : Name) : Prop := (s.number? name file).isSome

/-- A file has a number in a section if there is one under both names. -/
theorem numbered_iff {name file : Name} : s.Numbered name file ↔ (name, file) ∈ s.numbers := by
  simp [Numbered, number?]

/-- A name is listed when its start is set for the first time. -/
theorem names_setStart (s : Sections) (name : Name) (start : Address) :
    (s.setStart name start).names =
      if s.contains name = true then s.names else s.names ++ [name] := by
  unfold setStart names
  split
  · refine map_updateFirst ?_ s.sections
    exact fun _ => rfl
  · exact List.map_append

/-- To set an end registers nothing. -/
theorem names_setStop (s : Sections) (name : Name) (stop : Address) :
    (s.setStop name stop).names = s.names := by
  refine map_updateFirst ?_ s.sections
  exact fun _ => rfl

/-! ## Enumeration -/

section Enumeration

variable (cb : Callbacks (StateM σ)) (numbers : Std.ExtTreeMap (Name × Name) FileNumber) (st : σ)

/-- Numbers are added for the files of this section only. -/
theorem mem_numberFiles (name : Name) (files : List Name) (k : Name × Name) :
    k ∈ (numberFiles cb name files numbers st).1 ↔ k ∈ numbers ∨ k.1 = name ∧ k.2 ∈ files := by
  induction files generalizing numbers st with
  | nil =>
    have hnil : (numberFiles cb name [] numbers st).1 = numbers := rfl
    simp [hnil]
  | cons file files ih =>
    have hstep : numberFiles cb name (file :: files) numbers st =
        numberFiles cb name files (numbers.insert (name, file) (cb.number name file st).1)
          (cb.number name file st).2 := rfl
    rw [hstep, ih, Std.ExtTreeMap.mem_insert, Std.compare_eq_iff_eq, List.mem_cons]
    grind

/-- The sections stay the same but for their ends. -/
theorem names_finish (files : List Name) (ss : List Section) :
    (finish cb files ss numbers st).1.1.map (·.name) = ss.map (·.name) := by
  induction ss generalizing numbers st with
  | nil => rfl
  | cons s ss ih => exact congrArg (List.cons s.name) (ih _ _)

/-- Numbers are added for every file in each of these sections, and for nothing else. -/
theorem mem_finish (files : List Name) (ss : List Section) (k : Name × Name) :
    k ∈ (finish cb files ss numbers st).1.2 ↔
      k ∈ numbers ∨ k.1 ∈ ss.map (·.name) ∧ k.2 ∈ files := by
  induction ss generalizing numbers st with
  | nil =>
    have hnil : (finish cb files [] numbers st).1.2 = numbers := rfl
    simp [hnil]
  | cons s ss ih =>
    have hnumbers : (finish cb files (s :: ss) numbers st).1.2 =
        (finish cb files ss (numberFiles cb s.name files numbers (cb.stop s.name st).2).1
          (cb.close s.name (numberFiles cb s.name files numbers (cb.stop s.name st).2).2).2).1.2 :=
      rfl
    rw [hnumbers, ih, mem_numberFiles, List.map_cons, List.mem_cons]
    grind

/-- An enumeration keeps the sections and their order. -/
theorem names_enumerate (s : Sections) : (s.enumerate cb st).1.names = s.names :=
  names_finish cb s.numbers st s.fileList s.sections

theorem files_enumerate (s : Sections) : (s.enumerate cb st).1.files = s.files := rfl

theorem mem_fileList {file : Name} : file ∈ s.fileList ↔ file ∈ s.files :=
  Std.ExtTreeSet.mem_toList

/-- After an enumeration every file has a number in every section, besides what had one before. -/
theorem numbered_enumerate_iff (s : Sections) (name file : Name) :
    (s.enumerate cb st).1.Numbered name file ↔
      s.Numbered name file ∨ name ∈ s.names ∧ file ∈ s.files := by
  have hmem := mem_finish cb s.numbers st s.fileList s.sections (name, file)
  rw [mem_fileList] at hmem
  rw [numbered_iff, numbered_iff]
  exact hmem

end Enumeration

/-! ## What has a number -/

/-- A number is that of a section and a file that are there. -/
def Accounted (s : Sections) : Prop :=
  ∀ name file, s.Numbered name file → name ∈ s.names ∧ file ∈ s.files

/-- In an empty table nothing has a number. -/
theorem accounted_empty : Accounted ∅ :=
  fun _ _ h => absurd (numbered_iff.1 h) Std.ExtTreeMap.not_mem_empty

namespace Accounted

/-- Names and files may be added. -/
theorem mono {s' : Sections} (h : s.Accounted) (hnumbers : s'.numbers = s.numbers)
    (hnames : s.names ⊆ s'.names) (hfiles : ∀ file ∈ s.files, file ∈ s'.files) :
    s'.Accounted := by
  intro name file hnumbered
  rw [numbered_iff, hnumbers, ← numbered_iff] at hnumbered
  obtain ⟨hname, hfile⟩ := h name file hnumbered
  exact ⟨hnames hname, hfiles file hfile⟩

theorem addFile (h : s.Accounted) (file : Name) : (s.addFile file).Accounted :=
  h.mono rfl (List.Subset.refl _) fun file' hfile' => by
    simp [Sections.addFile, hfile']

theorem setStart (h : s.Accounted) (name : Name) (start : Address) :
    (s.setStart name start).Accounted := by
  refine h.mono rfl ?_ fun _ hfile => hfile
  rw [names_setStart]
  split
  · exact List.Subset.refl _
  · exact List.subset_append_left _ _

theorem setStop (h : s.Accounted) (name : Name) (stop : Address) :
    (s.setStop name stop).Accounted := by
  refine h.mono rfl ?_ fun _ hfile => hfile
  rw [names_setStop]
  exact List.Subset.refl _

/-- After an enumeration there is a number wherever there may be one. -/
theorem numbered_enumerate (h : s.Accounted) (cb : Callbacks (StateM σ)) (st : σ)
    (name file : Name) :
    (s.enumerate cb st).1.Numbered name file ↔ name ∈ s.names ∧ file ∈ s.files := by
  rw [numbered_enumerate_iff]
  exact or_iff_right_of_imp (h name file)

/-- An enumeration gives numbers to files in sections only. -/
theorem enumerate (h : s.Accounted) (cb : Callbacks (StateM σ)) (st : σ) :
    (s.enumerate cb st).1.Accounted := by
  intro name file hnumbered
  rw [names_enumerate, files_enumerate]
  exact (h.numbered_enumerate cb st name file).1 hnumbered

end Accounted

end DebugInfo.Sections
