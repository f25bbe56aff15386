import DebugInfo.Proofs.FirstOccurrences
import DebugInfo.StringPool

/-!
# Strings and their names

A pool keeps a string at the position that is its name, and the name under the string.  Both are
added at once, so whatever is interned, each leads back to the other, and the names are the
positions in the order in which the strings came up first.

Of the two ways to intern a string, one says so if there is no room, and the other one is not meant
to be used then.  Otherwise they do the same.
-/

namespace DebugInfo.StringPool

variable {p : StringPool} {s : String} {n : Name}

/-! ## Calls -/

/-- The string has a name, or there is one left. -/
def HasRoom (p : StringPool) (s : String) : Prop := (p.name? s).isSome ∨ p.size < capacity

instance (p : StringPool) (s : String) : Decidable (p.HasRoom s) :=
  inferInstanceAs (Decidable (_ ∨ _))

/-- A string that has a name keeps it. -/
theorem intern_of_name? (h : p.name? s = some n) : p.intern s = (n, p) := by
  rw [intern, h]

/-- A string that has none gets the next one, and is put at that position. -/
theorem intern_of_name?_eq_none (h : p.name? s = none) :
    p.intern s = (⟨p.size⟩, ⟨p.strings.push s, p.names.insert s ⟨p.size⟩⟩) := by
  rw [intern, h]

/-- To try is to intern if there is room, and otherwise to fail at the size of the pool. -/
theorem tryIntern_eq (p : StringPool) (s : String) :
    p.tryIntern s = if p.HasRoom s then .ok (p.intern s) else .error (.overflow p.size) := by
  rw [tryIntern]
  split
  · next n hs => rw [if_pos (.inl (by simp [hs])), intern_of_name? hs]
  · next hs =>
    have hroom : p.HasRoom s ↔ p.size < capacity := by simp [HasRoom, hs]
    simp only [hroom]

inductive Call where
  | intern (s : String)
  | tryIntern (s : String)

def Call.string : Call → String
  | .intern s | .tryIntern s => s

/-- The name that a call returns, and the pool afterwards.  Without room it does not return. -/
def answer? (p : StringPool) : Call → Option (Name × StringPool)
  | .intern s => if p.HasRoom s then some (p.intern s) else none
  | .tryIntern s => (p.tryIntern s).toOption

/-- A call has an answer if there is room for its string, and then both ways of calling give the
same. -/
theorem answer?_eq (p : StringPool) (c : Call) :
    p.answer? c = if p.HasRoom c.string then some (p.intern c.string) else none := by
  cases c with
  | intern s => rfl
  | tryIntern s =>
    rw [answer?, tryIntern_eq, Call.string]
    split <;> rfl

/-- A pool, with the strings that were interned so far and the names they got, in turn. -/
abbrev History := StringPool × List (String × Name)

def step (h : History) (c : Call) : History :=
  match h.1.answer? c with
  | some (n, p) => (p, h.2 ++ [(c.string, n)])
  | none => h

def run (calls : List Call) : History := calls.foldl step (empty, [])

theorem run_append (calls later : List Call) :
    run (calls ++ later) = later.foldl step (run calls) :=
  List.foldl_append

/-- A call finds a string, or adds it, or there is no room for it. -/
theorem step_cases (h : History) (c : Call) :
    (∃ n, h.1.name? c.string = some n ∧ step h c = (h.1, h.2 ++ [(c.string, n)])) ∨
    h.1.name? c.string = none ∧
      (h.1.size < capacity ∧ step h c = ((h.1.intern c.string).2, h.2 ++ [(c.string, ⟨h.1.size⟩)]) ∨
        capacity ≤ h.1.size ∧ step h c = h) := by
  rw [step, answer?_eq]
  cases hs : h.1.name? c.string with
  | some n =>
    left
    refine ⟨n, rfl, ?_⟩
    rw [if_pos (.inl (by simp [hs])), intern_of_name? hs]
  | none =>
    right
    have hroom : h.1.HasRoom c.string ↔ h.1.size < capacity := by simp [HasRoom, hs]
    refine ⟨rfl, ?_⟩
    by_cases hp : h.1.size < capacity
    · left
      rw [if_pos (hroom.2 hp), intern_of_name?_eq_none hs]
      exact ⟨hp, rfl⟩
    · right
      rw [if_neg (mt hroom.1 hp)]
      exact ⟨Nat.le_of_not_lt hp, rfl⟩

/-! ## Strings and positions -/

theorem name?_empty (s : String) : empty.name? s = if "" = s then some Name.empty else none := by
  simp only [name?, empty, Std.ExtTreeMap.getElem?_insert, Std.compare_eq_iff_eq]
  split
  · rfl
  · exact Std.ExtTreeMap.getElem?_empty

section Intern

variable (h : p.name? s = none)
include h

/-- A new string gets the position at the end, and the others keep their names. -/
theorem name?_intern (t : String) :
    (p.intern s).2.name? t = if s = t then some ⟨p.size⟩ else p.name? t := by
  rw [intern_of_name?_eq_none h]
  simp only [name?, Std.ExtTreeMap.getElem?_insert, Std.compare_eq_iff_eq]

theorem strings_intern : (p.intern s).2.strings = p.strings.push s := by
  rw [intern_of_name?_eq_none h]

theorem size_intern : (p.intern s).2.size = p.size + 1 := by
  rw [size, strings_intern h, Array.size_push, size]

end Intern

/-- A string has a name if and only if it stands at the position that is the name. -/
def Paired (p : StringPool) : Prop := ∀ s n, p.name? s = some n ↔ p.strings[n.raw]? = some s

namespace Paired

theorem empty : Paired empty := by
  intro s n
  have hget : StringPool.empty.strings[n.raw]? = if n.raw = 0 then some "" else none := by
    rcases hn : n.raw with _ | k <;> rfl
  have hname : Name.empty = n ↔ n.raw = 0 := by rw [Ident.ext_iff, eq_comm, Name.empty]
  simp only [name?_empty, hget, Option.ite_none_right_eq_some, Option.some.injEq, hname]
  exact and_comm

/-- Names and positions belong together after a new string is interned. -/
theorem intern (h : p.Paired) (hs : p.name? s = none) : (p.intern s).2.Paired := by
  intro t n
  rw [name?_intern hs, strings_intern hs, Array.getElem?_push]
  have hlast : p.strings[p.strings.size]? = none := Array.getElem?_eq_none (Nat.le_refl _)
  by_cases ht : s = t
  · subst ht
    rw [if_pos rfl, Option.some.injEq, Ident.ext_iff]
    by_cases hn : n.raw = p.strings.size
    · rw [if_pos hn]
      exact iff_of_true hn.symm rfl
    · rw [if_neg hn, ← h, hs]
      exact iff_of_false (Ne.symm hn) (fun hnone => nomatch hnone)
  · rw [if_neg ht, h]
    by_cases hn : n.raw = p.strings.size
    · rw [if_pos hn, hn, hlast, Option.some.injEq]
      exact iff_of_false (fun hnone => nomatch hnone) ht
    · rw [if_neg hn]

/-- Every name is a position of the pool. -/
theorem lt_size (h : p.Paired) (hs : p.name? s = some n) : n.raw < p.size := by
  obtain ⟨hlt, -⟩ := Array.getElem?_eq_some_iff.1 ((h s n).1 hs)
  exact hlt

/-- The name of a string leads back to it. -/
theorem string (h : p.Paired) (hs : p.name? s = some n) : p.string n = s := by
  rw [StringPool.string, (h s n).1 hs]
  rfl

/-- The string at a position leads back to it. -/
theorem name?_string (h : p.Paired) (hn : n.raw < p.size) : p.name? (p.string n) = some n := by
  have hget : p.strings[n.raw]? = some p.strings[n.raw] := Array.getElem?_eq_getElem hn
  rw [StringPool.string, hget, h]
  exact hget

/-- A string has no name exactly if it is at no position. -/
theorem name?_eq_none_iff (h : p.Paired) : p.name? s = none ↔ s ∉ p.strings.toList := by
  rw [Option.eq_none_iff_forall_ne_some, List.mem_iff_getElem?, not_exists]
  constructor
  · exact fun hnone i hi => hnone ⟨i⟩ ((h s ⟨i⟩).2 (by simpa using hi))
  · exact fun hnone n hn => hnone n.raw (by simpa using (h s n).1 hn)

end Paired

/-! ## Runs -/

/-- What is true of a pool, and of what was interned in it. -/
structure Records (h : History) : Prop where
  paired : h.1.Paired
  size_le : h.1.size ≤ capacity
  strings : h.1.strings.toList = ("" :: h.2.map (·.1)).eraseDups
  names : (Name.empty :: h.2.map (·.2)).eraseDups = (List.range h.1.size).map Ident.mk
  known : ∀ a ∈ h.2, h.1.name? a.1 = some a.2

theorem records_empty : Records (empty, []) where
  paired := .empty
  size_le := by decide
  strings := rfl
  names := rfl
  known _ ha := nomatch ha

namespace Records

variable {h : History}

theorem name?_eq_none_iff (hr : Records h) (s : String) :
    h.1.name? s = none ↔ s ∉ "" :: h.2.map (·.1) := by
  rw [hr.paired.name?_eq_none_iff, hr.strings, List.mem_eraseDups]

/-- The names that were answered, with that of the empty string, are the positions of the pool. -/
theorem mem_names_iff (hr : Records h) (n : Name) :
    n ∈ Name.empty :: h.2.map (·.2) ↔ n.raw < h.1.size := by
  rw [← List.mem_eraseDups, hr.names, List.mem_map]
  constructor
  · rintro ⟨i, hi, rfl⟩
    exact List.mem_range.1 hi
  · exact fun hn => ⟨n.raw, List.mem_range.2 hn, rfl⟩

/-- A string that has a name gets the same one again. -/
theorem again (hr : Records h) {s : String} {n : Name} (hs : h.1.name? s = some n) :
    Records (h.1, h.2 ++ [(s, n)]) where
  paired := hr.paired
  size_le := hr.size_le
  strings := by
    have hmem : s ∈ "" :: h.2.map (·.1) := by
      by_contra hnew
      rw [(hr.name?_eq_none_iff s).2 hnew] at hs
      cases hs
    rw [List.map_append, List.map_singleton, ← List.cons_append, eraseDups_concat, if_pos hmem,
      hr.strings]
  names := by
    have hmem := (hr.mem_names_iff n).2 (hr.paired.lt_size hs)
    rw [List.map_append, List.map_singleton, ← List.cons_append, eraseDups_concat, if_pos hmem,
      hr.names]
  known a ha := by
    rcases List.mem_append.1 ha with ha | ha
    · exact hr.known a ha
    · cases List.mem_singleton.1 ha
      exact hs

/-- A string without a name gets the next one. -/
theorem add (hr : Records h) {s : String} (hs : h.1.name? s = none) (hsize : h.1.size < capacity) :
    Records ((h.1.intern s).2, h.2 ++ [(s, ⟨h.1.size⟩)]) where
  paired := hr.paired.intern hs
  size_le := by
    rw [size_intern hs]
    exact hsize
  strings := by
    have hnew := (hr.name?_eq_none_iff s).1 hs
    rw [List.map_append, List.map_singleton, ← List.cons_append, eraseDups_concat, if_neg hnew,
      strings_intern hs, Array.toList_push, hr.strings]
  names := by
    have hnew : ⟨h.1.size⟩ ∉ Name.empty :: h.2.map (·.2) :=
      mt (hr.mem_names_iff _).1 (Nat.lt_irrefl _)
    rw [List.map_append, List.map_singleton, ← List.cons_append, eraseDups_concat, if_neg hnew,
      size_intern hs, List.range_succ, List.map_append, hr.names]
    rfl
  known a ha := by
    rw [name?_intern hs]
    rcases List.mem_append.1 ha with ha | ha
    · have hknown := hr.known a ha
      rw [if_neg, hknown]
      intro heq
      rw [← heq, hs] at hknown
      cases hknown
    · cases List.mem_singleton.1 ha
      exact if_pos rfl

/-- One more call is recorded. -/
theorem step (hr : Records h) (c : Call) : Records (step h c) := by
  rcases step_cases h c with ⟨n, hn, heq⟩ | ⟨hn, ⟨hsize, heq⟩ | ⟨-, heq⟩⟩
  · rw [heq]
    exact hr.again hn
  · rw [heq]
    exact hr.add hn hsize
  · rwa [heq]

end Records

/-- After any calls the pool records them. -/
theorem run_records (calls : List Call) : Records (run calls) := by
  induction calls using List.reverseRecOn with
  | nil => exact records_empty
  | append_singleton calls c ih =>
    rw [run_append]
    exact ih.step c

/-- What was interned stays so. -/
theorem mem_run_append {calls : List Call} {a : String × Name} (ha : a ∈ (run calls).2)
    (later : List Call) : a ∈ (run (calls ++ later)).2 := by
  induction later using List.reverseRecOn with
  | nil => rwa [List.append_nil]
  | append_singleton later c ih =>
    rw [← List.append_assoc, run_append _ [c]]
    rcases step_cases (run (calls ++ later)) c with ⟨n, -, heq⟩ | ⟨-, ⟨-, heq⟩ | ⟨-, heq⟩⟩
    · simp [heq, ih]
    · simp [heq, ih]
    · simp [heq, ih]

/-- As long as the pool does not fill up, every call returns. -/
theorem strings_run {calls : List Call} (h : (run calls).1.size < capacity) :
    (run calls).2.map (·.1) = calls.map Call.string := by
  induction calls using List.reverseRecOn with
  | nil => rfl
  | append_singleton calls c ih =>
    rw [run_append, List.foldl_cons, List.foldl_nil] at h ⊢
    rw [List.map_append, List.map_singleton]
    rcases step_cases (run calls) c with ⟨n, -, heq⟩ | ⟨hc, ⟨-, heq⟩ | ⟨hfull, heq⟩⟩
    · rw [heq] at h ⊢
      rw [List.map_append, ih h, List.map_singleton]
    · rw [heq, size_intern hc] at h
      rw [heq, List.map_append, ih (Nat.lt_of_succ_lt h), List.map_singleton]
    · rw [heq] at h
      exact absurd h (Nat.not_lt.2 hfull)

/-- Two calls return the same name if and only if they are given the same string.  From then on the
name leads to the string and the string to the name, whatever is interned later.  The names are
those below the size of the pool, in the order in which the strings came up first; each of them
leads to its string and back, and only what was never interned has no name. -/
theorem run_oneToOne (calls : List Call) :
    let p := (run calls).1
    let log := (run calls).2
    p.size ≤ capacity ∧
    (p.size < capacity → log.map (·.1) = calls.map Call.string) ∧
    (∀ a ∈ log, ∀ b ∈ log, a.2 = b.2 ↔ a.1 = b.1) ∧
    (∀ later, ∀ a ∈ log, let q := (run (calls ++ later)).1
      q.string a.2 = a.1 ∧ q.name? a.1 = some a.2) ∧
    (Name.empty :: log.map (·.2)).eraseDups = (List.range p.size).map Ident.mk ∧
    (∀ n : Name, n.raw < p.size → p.name? (p.string n) = some n) ∧
    ∀ s, p.name? s = none ↔ s ≠ "" ∧ s ∉ log.map (·.1) := by
  intro p log
  have hr := run_records calls
  refine ⟨hr.size_le, strings_run, ?_, ?_, hr.names, fun n => hr.paired.name?_string, fun s => ?_⟩
  · intro a ha b hb
    have ha := hr.known a ha
    have hb := hr.known b hb
    constructor
    · intro heq
      rw [← hr.paired.string ha, ← hr.paired.string hb, heq]
    · intro heq
      rw [heq, hb] at ha
      exact (Option.some.inj ha).symm
  · intro later a ha q
    have hlater := run_records (calls ++ later)
    have hname := hlater.known a (mem_run_append ha later)
    exact ⟨hlater.paired.string hname, hname⟩
  · rw [hr.name?_eq_none_iff s, List.mem_cons, not_or]

/-- The text that stands for names of other pools is a string like any other. -/
theorem run_oneToOne_unknown :
    let calls : List Call :=
      [.intern "<unknown>", .tryIntern "", .intern "a", .tryIntern "<unknown>"]
    let p := (run calls).1
    let log := (run calls).2
    p.size < capacity ∧ log.map (·.1) = calls.map Call.string ∧
      ("<unknown>", ⟨1⟩) ∈ log ∧ ("a", ⟨2⟩) ∈ log ∧ (⟨1⟩ : Name) ≠ ⟨2⟩ ∧
      (∀ later, (run (calls ++ later)).1.string ⟨1⟩ = "<unknown>") ∧
      p.name? (p.string ⟨2⟩) = some ⟨2⟩ := by
  intro calls p log
  have hsize : p.size < capacity := by decide +kernel
  have hunknown : ("<unknown>", ⟨1⟩) ∈ log := by decide +kernel
  have ha : ("a", ⟨2⟩) ∈ log := by decide +kernel
  obtain ⟨-, hall, hsame, hlater, -, hback, -⟩ := run_oneToOne calls
  have hne : (⟨1⟩ : Name) ≠ ⟨2⟩ := mt (hsame _ hunknown _ ha).1 (by decide)
  exact ⟨hsize, hall hsize, hunknown, ha, hne, fun later => (hlater later _ hunknown).1,
    hback ⟨2⟩ (by decide +kernel)⟩

end DebugInfo.StringPool
