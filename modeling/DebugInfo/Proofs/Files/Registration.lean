import Mathlib.Data.List.DropRight
import Mathlib.Data.List.Forall2
import Mathlib.Data.List.Nodup
import DebugInfo.Proofs.Files.Numbers
import DebugInfo.Proofs.FirstOccurrences

/-!
# Registering sections

A section is registered when its start is set for the first time.  Later on the start may be moved,
and the end may be set, but the section stays where it is in the list.  So the names in a table are
those that were registered since it was cleared, each once and in the order in which they came up
first.

A table may as well keep the position of every name.  The list only grows at its end, so a position
that was noted once stays right until the table is cleared, and both kinds of tables hold and find
the same.
-/

namespace DebugInfo.Sections

/-- An operation on a table.  The callbacks of an enumeration have a state of their own. -/
inductive Operation : Type 1 where
  | clear
  | setStart (name : Name) (start : Address)
  | setStop (name : Name) (stop : Address)
  | addFile (file : Name)
  | enumerate {σ : Type} (cb : Callbacks (StateM σ)) (start : σ)

namespace Operation

def isClear : Operation → Bool
  | .clear => true
  | _ => false

/-- The section that is registered, if it is not so already. -/
def registered? : Operation → Option Name
  | .setStart name _ => some name
  | _ => none

def file? : Operation → Option Name
  | .addFile file => some file
  | _ => none

end Operation

variable {s : Sections} {name : Name}

def perform (s : Sections) : Operation → Sections
  | .clear => s.clear
  | .setStart name start => s.setStart name start
  | .setStop name stop => s.setStop name stop
  | .addFile file => s.addFile file
  | .enumerate cb start => (s.enumerate cb start).1

/-- The table after a sequence of operations on an empty one. -/
def run (history : List Operation) : Sections := history.foldl perform ∅

theorem run_concat (history : List Operation) (op : Operation) :
    run (history ++ [op]) = (run history).perform op := by
  rw [run, List.foldl_concat]
  rfl

/-- Whatever clears a table leaves an empty one. -/
theorem perform_of_isClear (s : Sections) {op : Operation} (hop : op.isClear = true) :
    s.perform op = ∅ := by
  cases op <;> first | rfl | cases hop

/-- The operations since the table was cleared for the last time. -/
def sinceClear (history : List Operation) : List Operation :=
  history.rtakeWhile fun op => !op.isClear

/-- One more operation is the last one since, or begins anew. -/
theorem sinceClear_concat (history : List Operation) (op : Operation) :
    sinceClear (history ++ [op]) = if op.isClear then [] else sinceClear history ++ [op] := by
  rw [sinceClear, List.rtakeWhile_concat]
  cases op.isClear <;> rfl

/-! ## Names -/

/-- The names of the sections whose start was set, in order and as often as it was. -/
def registered (history : List Operation) : List Name :=
  (sinceClear history).filterMap Operation.registered?

/-- The files that were noted, as often as they were. -/
def noted (history : List Operation) : List Name :=
  (sinceClear history).filterMap Operation.file?

theorem filterMap_sinceClear_concat {α : Type} (f : Operation → Option α)
    (history : List Operation) (op : Operation) :
    (sinceClear (history ++ [op])).filterMap f =
      if op.isClear then [] else (sinceClear history).filterMap f ++ (f op).toList := by
  rw [sinceClear_concat]
  split
  · rfl
  · rw [List.filterMap_append, List.filterMap_cons]
    cases f op <;> rfl

/-- A name is added if it is registered and new. -/
theorem names_perform (s : Sections) {op : Operation} (hop : op.isClear = false) :
    (s.perform op).names = op.registered?.elim s.names fun name =>
      if name ∈ s.names then s.names else s.names ++ [name] := by
  cases op with
  | clear => cases hop
  | setStart name start =>
    have hnames := names_setStart s name start
    simp only [contains_iff] at hnames
    exact hnames
  | setStop name stop => exact names_setStop s name stop
  | addFile file => rfl
  | enumerate cb start => exact names_enumerate cb start s

/-- The names are those that were registered, in the order in which they came up first. -/
theorem names_run (history : List Operation) :
    (run history).names = (registered history).eraseDups := by
  induction history using List.reverseRecOn with
  | nil => rfl
  | append_singleton history op ih =>
    rw [run_concat, registered, filterMap_sinceClear_concat]
    cases hop : op.isClear with
    | true =>
      rw [perform_of_isClear _ hop]
      rfl
    | false =>
      rw [names_perform _ hop, ih]
      cases op.registered? with
      | none => simp [registered]
      | some name => simp [registered, eraseDups_concat]

/-- No name is listed twice. -/
theorem nodup_names_run (history : List Operation) : (run history).names.Nodup := by
  rw [names_run]
  exact nodup_eraseDups _

/-- A file is added if it is noted. -/
theorem mem_files_perform (s : Sections) {op : Operation} (hop : op.isClear = false)
    (file : Name) : file ∈ (s.perform op).files ↔ file ∈ s.files ∨ op.file? = some file := by
  cases op with
  | clear => cases hop
  | addFile file' => simp [perform, addFile, Operation.file?, or_comm]
  | setStart | setStop => simp [perform, setStart, setStop, Operation.file?]
  | enumerate cb start => simp [perform, files_enumerate, Operation.file?]

/-- The files are those that were noted. -/
theorem mem_files_run (history : List Operation) (file : Name) :
    file ∈ (run history).files ↔ file ∈ noted history := by
  induction history using List.reverseRecOn with
  | nil => exact iff_of_false Std.ExtTreeSet.not_mem_empty List.not_mem_nil
  | append_singleton history op ih =>
    rw [run_concat, noted, filterMap_sinceClear_concat]
    cases hop : op.isClear with
    | true =>
      rw [perform_of_isClear _ hop]
      exact iff_of_false Std.ExtTreeSet.not_mem_empty List.not_mem_nil
    | false => simp [mem_files_perform _ hop, ih, noted]

/-- The files are listed in ascending order, each once. -/
theorem ascending_fileList (s : Sections) : s.fileList.Pairwise fun a b => a.raw < b.raw := by
  refine List.Pairwise.imp ?_ (Std.ExtTreeSet.ordered_toList (t := s.files))
  exact fun h => Nat.compare_eq_lt.1 h

/-- No file is listed twice. -/
theorem nodup_fileList (s : Sections) : s.fileList.Nodup :=
  s.ascending_fileList.imp fun h => by
    rintro rfl
    exact Nat.lt_irrefl _ h

/-- Where the names are distinct, what is found under a name is what is listed under it. -/
theorem get?_eq_some_iff (h : s.names.Nodup) {sec : Section} :
    s.get? name = some sec ↔ sec ∈ s.sections ∧ sec.name = name := by
  constructor
  · intro hfound
    exact ⟨List.mem_of_find?_eq_some hfound, by simpa using List.find?_some hfound⟩
  · rintro ⟨hmem, rfl⟩
    cases hfound : s.get? sec.name with
    | none => exact absurd (List.find?_eq_none.1 hfound sec hmem) (by simp)
    | some sec' =>
      have hsame : sec'.name = sec.name := by simpa using List.find?_some hfound
      exact congrArg some (List.inj_on_of_nodup_map h (List.mem_of_find?_eq_some hfound) hmem hsame)

/-- Tables with the same distinct names hold what they find under these names, in the same
places. -/
theorem forall₂_sections {s' : Sections} {R : Section → Section → Prop} (h : s.names.Nodup)
    (hnames : s'.names = s.names)
    (hR : ∀ sec sec', s.get? sec.name = some sec → s'.get? sec.name = some sec' → R sec sec') :
    List.Forall₂ R s.sections s'.sections := by
  have hlength : s.sections.length = s'.sections.length := by
    simpa [names] using congrArg List.length hnames.symm
  refine List.forall₂_iff_get.2 ⟨hlength, fun i hi hi' => ?_⟩
  have hname : (s'.sections.get ⟨i, hi'⟩).name = (s.sections.get ⟨i, hi⟩).name := by
    have hi? := congrArg (·[i]?) hnames
    simpa [names, hi, hi'] using hi?
  refine hR _ _ ((get?_eq_some_iff h).2 ⟨List.get_mem _ _, rfl⟩) ?_
  exact (get?_eq_some_iff (hnames.symm ▸ h)).2 ⟨List.get_mem _ _, hname⟩

/-! ## Positions -/

namespace Indexed

def perform (x : Indexed) : Operation → Indexed
  | .clear => x.clear
  | .setStart name start => x.setStart name start
  | .setStop name stop => x.setStop name stop
  | .addFile file => x.addFile file
  | .enumerate cb start => (x.enumerate cb start).1

def run (history : List Operation) : Indexed := history.foldl perform ∅

theorem run_concat (history : List Operation) (op : Operation) :
    run (history ++ [op]) = (run history).perform op := by
  rw [run, List.foldl_concat]
  rfl

/-- The position of a name is that at which it is listed. -/
def Located (x : Indexed) : Prop :=
  ∀ name, x.positions[name]? = x.table.names.findIdx? (· == name)

variable {x : Indexed}

theorem located_empty : Located ∅ := fun _ => Std.ExtTreeMap.getElem?_empty

namespace Located

/-- The position of a name is where the first section of that name is. -/
theorem positions (h : x.Located) (name : Name) :
    x.positions[name]? = x.table.sections.findIdx? (·.name == name) :=
  (h name).trans List.findIdx?_map

/-- A section that is found by its position is the one that is found by its name. -/
theorem get? (h : x.Located) (name : Name) : x.get? name = x.table.get? name := by
  rw [Indexed.get?, h.positions, Sections.get?, List.find?_eq_bind_findIdx?_getElem?]

theorem contains (h : x.Located) (name : Name) :
    x.contains name = x.table.contains name := by
  rw [Indexed.contains, ← Std.ExtTreeMap.isSome_getElem?_eq_contains, h.positions,
    List.findIdx?_isSome, Sections.contains]

/-- Only the names matter. -/
theorem of_names (h : x.Located) {table : Sections} (hnames : table.names = x.table.names) :
    Located { x with table } := by
  intro name
  rw [hnames]
  exact h name

/-- The section at the position of a name is the first one of that name. -/
theorem modify (h : x.Located) {name : Name} {i : Nat} (hi : x.positions[name]? = some i)
    {f : Section → Section} (hf : ∀ sec, (f sec).name = sec.name) :
    (x.modify i f).table =
        { x.table with sections := updateFirst (·.name == name) f x.table.sections } ∧
      (x.modify i f).Located := by
  have hsections : x.table.sections.modify i f =
      updateFirst (·.name == name) f x.table.sections :=
    (updateFirst_eq_modify f ((h.positions name).symm.trans hi)).symm
  have htable : (x.modify i f).table =
      { x.table with sections := updateFirst (·.name == name) f x.table.sections } := by
    rw [Indexed.modify, hsections]
  refine ⟨htable, h.of_names ?_⟩
  rw [hsections]
  exact map_updateFirst hf x.table.sections

/-- The start is set at the position of the name, or at the end of the list. -/
theorem setStart (h : x.Located) (name : Name) (start : Address) :
    (x.setStart name start).table = x.table.setStart name start ∧
      (x.setStart name start).Located := by
  have hcontains := h.contains name
  rw [Indexed.contains, ← Std.ExtTreeMap.isSome_getElem?_eq_contains] at hcontains
  unfold Indexed.setStart Sections.setStart
  cases hi : x.positions[name]? with
  | some i =>
    rw [hi] at hcontains
    rw [← hcontains]
    exact h.modify hi fun _ => rfl
  | none =>
    rw [hi] at hcontains
    rw [← hcontains]
    refine ⟨rfl, fun name' => ?_⟩
    have hnames : Sections.names { x.table with
        sections := x.table.sections ++ [{ name, start }] } = x.table.names ++ [name] :=
      List.map_append
    -- A name that was not listed is now listed at the end, and the others stay in front of it.
    rw [hnames, List.findIdx?_append, ← h name', Std.ExtTreeMap.getElem?_insert,
      List.findIdx?_singleton]
    simp only [Std.compare_eq_iff_eq]
    split
    · next heq => simp [← heq, hi, names]
    · next hne => simp [hne]

/-- The end is set at the position of the name. -/
theorem setStop (h : x.Located) (name : Name) (stop : Address) :
    (x.setStop name stop).table = x.table.setStop name stop ∧ (x.setStop name stop).Located := by
  unfold Indexed.setStop Sections.setStop
  cases hi : x.positions[name]? with
  | some i => exact h.modify hi fun _ => rfl
  | none =>
    refine ⟨?_, h⟩
    have hnone := List.findIdx?_eq_none_iff.1 ((h.positions name).symm.trans hi)
    rw [updateFirst_of_forall_not hnone]

/-- One operation, which keeps the positions right. -/
theorem perform (h : x.Located) (op : Operation) :
    (x.perform op).table = x.table.perform op ∧ (x.perform op).Located := by
  cases op with
  | clear => exact ⟨rfl, located_empty⟩
  | setStart name start => exact h.setStart name start
  | setStop name stop => exact h.setStop name stop
  | addFile file => exact ⟨rfl, h.of_names rfl⟩
  | enumerate cb start => exact ⟨rfl, h.of_names (names_enumerate cb start _)⟩

end Located

/-- With positions, a table is the same after every history. -/
theorem run_table (history : List Operation) :
    (run history).table = Sections.run history ∧ (run history).Located := by
  induction history using List.reverseRecOn with
  | nil => exact ⟨rfl, located_empty⟩
  | append_singleton history op ih =>
    obtain ⟨htable, hlocated⟩ := ih
    rw [run_concat, Sections.run_concat, ← htable]
    exact hlocated.perform op

end Indexed

/-! ## Histories -/

/-- What a table holds and finds after a history. -/
structure Registers (s : Sections) (history : List Operation) : Prop where
  /-- The names are in the order in which they were first registered. -/
  names : s.names = (registered history).eraseDups
  nodup : s.names.Nodup
  get? : ∀ name sec, s.get? name = some sec ↔ sec ∈ s.sections ∧ sec.name = name
  contains : ∀ name, s.contains name = true ↔ name ∈ s.names
  /-- Nothing is found in another way if positions are kept. -/
  positions : ∀ name, (Indexed.run history).get? name = s.get? name ∧
    (Indexed.run history).contains name = s.contains name
  files : ∀ file, file ∈ s.fileList ↔ file ∈ noted history
  ascending : s.fileList.Pairwise fun a b => a.raw < b.raw

/-- A table holds and finds what its history says. -/
theorem run_registers (history : List Operation) : (run history).Registers history where
  names := names_run history
  nodup := nodup_names_run history
  get? _ _ := get?_eq_some_iff (nodup_names_run history)
  contains _ := contains_iff
  positions name := by
    obtain ⟨htable, hlocated⟩ := Indexed.run_table history
    rw [← htable]
    exact ⟨hlocated.get? name, hlocated.contains name⟩
  files file := mem_fileList.trans (mem_files_run history file)
  ascending := ascending_fileList _

end DebugInfo.Sections
