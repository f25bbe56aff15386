import Mathlib.Data.List.DropRight
import DebugInfo.Proofs.Files.Locations
import DebugInfo.Proofs.Files.Numbers

/-!
# Every location has a number for its file

The files of a unit are those of the locations that came with operations since the last restart,
whether the operations failed or not and whether the locations were kept or not.  The locations that
are stored are among them.  So once the files are numbered, the file of a stored location has a
number in every section.
-/

namespace DebugInfo.CompilationUnit

variable {σ : Type}

/-! ## Files -/

theorem file?_eq_map_loc? (op : Operation σ) : op.file? = op.loc?.map (·.file) := by
  cases op with
  | updateType id update => cases update <;> rfl
  | _ => rfl

def Operation.isRestart : Operation σ → Bool
  | .restart _ => true
  | _ => false

theorem Operation.exists_of_isRestart {op : Operation σ} (h : op.isRestart = true) :
    ∃ name, op = .restart name := by
  cases op with
  | restart name => exact ⟨name, rfl⟩
  | _ => cases h

/-- A file is noted by every operation that comes with a location in it, until the unit is
restarted. -/
theorem Operation.mem_files_onSections (op : Operation σ) (s : Sections) (file : Name) :
    file ∈ (op.onSections s).files ↔
      op.isRestart = false ∧ file ∈ s.files ∨ ∃ l, op.loc? = some l ∧ l.file = file := by
  cases hop : op.isRestart with
  | true =>
    obtain ⟨name, rfl⟩ := exists_of_isRestart hop
    exact iff_of_false Std.ExtTreeSet.not_mem_empty (by simp [loc?])
  | false =>
    have hfiles : (op.onSections s).files = (op.file?.elim s s.addFile).files := by
      cases op <;> first | rfl | cases hop
    rw [hfiles, file?_eq_map_loc?]
    cases op.loc? with
    | none => simp
    | some l => simp [Sections.addFile, or_comm]

/-- The operations since the unit was restarted for the last time. -/
def sinceRestart (ops : List (Operation σ)) : List (Operation σ) :=
  ops.rtakeWhile fun op => !op.isRestart

/-- One more operation is the last one since, or begins anew. -/
theorem sinceRestart_concat (ops : List (Operation σ)) (op : Operation σ) :
    sinceRestart (ops ++ [op]) = if op.isRestart then [] else sinceRestart ops ++ [op] := by
  rw [sinceRestart, List.rtakeWhile_concat]
  cases op.isRestart <;> rfl

/-- The files of a unit are those that were mentioned since the last restart. -/
theorem mem_files_run_iff (config : Config) (ops : List (Operation σ)) (file : Name) :
    file ∈ (run config ops).sections.files ↔
      ∃ op ∈ sinceRestart ops, ∃ l, op.loc? = some l ∧ l.file = file := by
  induction ops using List.reverseRecOn with
  | nil =>
    refine iff_of_false Std.ExtTreeSet.not_mem_empty ?_
    simp [sinceRestart]
  | append_singleton ops op ih =>
    rw [(run_frame config ops op).sections, Operation.mem_files_onSections, ih,
      sinceRestart_concat]
    cases hop : op.isRestart with
    | false => simp [or_and_right, exists_or]
    | true =>
      obtain ⟨name, rfl⟩ := Operation.exists_of_isRestart hop
      simp [Operation.loc?]

/-! ## Stored locations -/

/-- The file of every location that is stored is a file of the unit. -/
theorem run_locsIn_files (config : Config) (ops : List (Operation σ)) :
    (run config ops).LocsIn fun l => l.file ∈ (run config ops).sections.files := by
  induction ops using List.reverseRecOn with
  | nil => exact locsIn_of_isEmpty (isEmpty_new config)
  | append_singleton ops op ih =>
    have hsections := (run_frame config ops op).sections
    rw [run_concat] at hsections ⊢
    rw [hsections]
    cases hop : op.isRestart with
    | true =>
      obtain ⟨name, rfl⟩ := Operation.exists_of_isRestart hop
      exact locsIn_of_isEmpty (isEmpty_restart _ name)
    | false =>
      have hkept : (run config ops).LocsIn fun l => l.file ∈ (op.onSections _).files :=
        ih.mono fun l hl => (op.mem_files_onSections _ l.file).2 (.inl ⟨hop, hl⟩)
      exact hkept.apply fun l hl => (op.mem_files_onSections _ l.file).2 (.inr ⟨l, hl, rfl⟩)

/-! ## Numbers -/

/-- No operation gives a number to what is not a file in a section. -/
theorem accounted_onSections {s : Sections} (h : s.Accounted) (op : Operation σ) :
    (op.onSections s).Accounted := by
  have hfile (file? : Option Name) : (file?.elim s s.addFile).Accounted := by
    cases file? with
    | none => exact h
    | some file => exact h.addFile file
  cases op with
  | restart => exact Sections.accounted_empty
  | setSectionStart name start => exact h.setStart name start
  | setSectionStop name stop => exact h.setStop name stop
  | enumerate cb start => exact h.enumerate cb start
  | _ => exact hfile _

/-- After any run, what has a number is a file in a section that is registered. -/
theorem run_accounted (config : Config) (ops : List (Operation σ)) :
    (run config ops).sections.Accounted := by
  induction ops using List.reverseRecOn with
  | nil => exact Sections.accounted_empty
  | append_singleton ops op ih =>
    rw [(run_frame config ops op).sections]
    exact accounted_onSections ih op

/-- The files of a unit are those of the locations that came with its operations since the last
restart, and the locations that it stores are in them.  Once the files are numbered, there is a
number for a section and a file if and only if the unit has both, so there is one for every section
and every stored location. -/
theorem run_files (config : Config) (ops : List (Operation σ)) :
    let u := run config ops
    (∀ file, file ∈ u.sections.files ↔
      ∃ op ∈ sinceRestart ops, ∃ l, op.loc? = some l ∧ l.file = file) ∧
    u.LocsIn (fun l => l.file ∈ u.sections.files) ∧
    ∀ (cb : Sections.Callbacks (StateM σ)) (start : σ),
      let v := run config (ops ++ [.enumerate cb start])
      (∀ name file, (v.sections.number? name file).isSome ↔
        v.sections.contains name ∧ file ∈ v.sections.files) ∧
      v.LocsIn fun l => ∀ name, v.sections.contains name →
        (v.sections.number? name l.file).isSome := by
  intro u
  refine ⟨mem_files_run_iff config ops, run_locsIn_files config ops, fun cb start => ?_⟩
  intro v
  have hv : v.sections = (u.sections.enumerate cb start).1 :=
    (run_frame config ops (.enumerate cb start)).sections
  have hnumber : ∀ name file, (v.sections.number? name file).isSome ↔
      v.sections.contains name ∧ file ∈ v.sections.files := by
    intro name file
    rw [Sections.contains_iff, hv, Sections.names_enumerate, Sections.files_enumerate]
    exact (run_accounted config ops).numbered_enumerate cb start name file
  refine ⟨hnumber, ?_⟩
  exact (run_locsIn_files config _).mono fun l hl name hname => (hnumber name l.file).2 ⟨hname, hl⟩

/-- A variable is refused because its stamp is that of a function, and still its file has a
number. -/
theorem run_files_refused :
    let function : PrototypeDecl :=
      { name := ⟨7⟩, stamp := ⟨2⟩, storage := .external, type := .base [] .void,
        loc := ⟨⟨1⟩, 3, 1⟩ }
    let var : VariableDecl :=
      { name := ⟨8⟩, stamp := ⟨2⟩, storage := .external, type := .base [] (.integer .int),
        hasInitializer := true, loc := ⟨⟨2⟩, 4, 1⟩ }
    let ops : List (Operation Sections.Counter) :=
      [.setSectionStart ⟨5⟩ ⟨0⟩, .declare (.prototype function)]
    let refused : Operation Sections.Counter := .declare (.variable var)
    let enumeration : Operation Sections.Counter :=
      .enumerate (Sections.counting fun _ => ⟨9⟩) { next := .ofNat 1 }
    ((run {} ops).apply refused).1.isOk = false ∧
      ((run {} (ops ++ [refused] ++ [enumeration])).sections.number? ⟨5⟩ ⟨2⟩).isSome := by
  intro function var ops refused enumeration
  obtain ⟨-, -, hnumbers⟩ := run_files {} (ops ++ [refused])
  obtain ⟨hnumber, -⟩ := hnumbers (Sections.counting fun _ => ⟨9⟩) { next := .ofNat 1 }
  have hrefused : ((run {} ops).apply refused).1.isOk = false := by decide +kernel
  exact ⟨hrefused, (hnumber ⟨5⟩ ⟨2⟩).2 (by decide +kernel)⟩

end DebugInfo.CompilationUnit
