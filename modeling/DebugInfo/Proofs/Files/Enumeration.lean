import DebugInfo.Proofs.Files.Registration

/-!
# What an enumeration asks

An enumeration is a conversation with the caller.  For one section after the other it asks for the
end, then for the number of each file, and then it says that the section is closed.  Nothing else is
asked, and an answer is written down where it belongs before the next question is asked.  As the
sections have distinct names and the files are listed once each, no question comes up twice, so no
answer of one enumeration replaces another one.
-/

namespace DebugInfo

namespace FileNumber

/-- Every number is that of a natural number. -/
theorem ofNat_toNat (n : FileNumber) : ofNat n.raw.toNat = n := by
  simp [ofNat]

/-- To count on is to add one, also where the numbers begin anew. -/
theorem next_ofNat (n : Nat) : (ofNat n).next = ofNat (n + 1) := by
  simp [next, ofNat]

end FileNumber

namespace Sections

/-- A question to the caller.  There is no answer to the closing of a section. -/
inductive Question where
  | stop (name : Name)
  | number (name file : Name)
  | close (name : Name)
deriving DecidableEq, Repr

def Question.isNumber : Question → Bool
  | .number _ _ => true
  | _ => false

def Call.question : Call → Question
  | .stop name _ => .stop name
  | .number name file _ => .number name file
  | .close name => .close name

/-- The questions about one section. -/
def questionsAbout (files : List Name) (name : Name) : List Question :=
  .stop name :: (files.map (.number name) ++ [.close name])

def questions (s : Sections) : List Question := s.names.flatMap (questionsAbout s.fileList)

/-- Write an answer where it belongs. -/
def heed (s : Sections) : Call → Sections
  | .stop name addr => s.setStop name addr
  | .number name file n => s.setNumber name file n
  | .close _ => s

namespace Callbacks

variable {m : Type → Type} [Monad m]

def ask (cb : Callbacks m) : Question → m Call
  | .stop name => .stop name <$> cb.stop name
  | .number name file => .number name file <$> cb.number name file
  | .close name => (fun _ => .close name) <$> cb.close name

/-- Ask a question and write the answer where it belongs. -/
def consult (cb : Callbacks m) (s : Sections) (q : Question) : m Sections := heed s <$> cb.ask q

end Callbacks

variable {s : Sections} {name file : Name}

/-! ## Questions -/

/-- Nothing is asked twice about a section. -/
theorem nodup_questionsAbout {files : List Name} (h : files.Nodup) (name : Name) :
    (questionsAbout files name).Nodup := by
  have hnumbers : (files.map (Question.number name)).Nodup :=
    h.map fun _ _ heq => (Question.number.inj heq).2
  simp [questionsAbout, List.nodup_append, hnumbers]

/-- A section is asked for its end, for the number of each file, and closed. -/
theorem mem_questionsAbout {files : List Name} {q : Question} :
    q ∈ questionsAbout files name ↔
      q = .stop name ∨ (∃ file ∈ files, q = .number name file) ∨ q = .close name := by
  simp [questionsAbout, eq_comm]

/-- No question comes up twice. -/
theorem nodup_questions (h : s.names.Nodup) : s.questions.Nodup := by
  refine List.nodup_flatMap.2 ⟨fun name _ => nodup_questionsAbout s.nodup_fileList name, ?_⟩
  refine h.imp fun {name name'} hne q hq hq' => ?_
  rw [mem_questionsAbout] at hq hq'
  grind

/-- The ends that are asked for are those of the sections that are registered. -/
theorem stop_mem_questions : .stop name ∈ s.questions ↔ name ∈ s.names := by
  simp [questions, mem_questionsAbout]

/-- The numbers that are asked for are those of every file in every section. -/
theorem number_mem_questions :
    .number name file ∈ s.questions ↔ name ∈ s.names ∧ file ∈ s.fileList := by
  simp [questions, mem_questionsAbout]

/-! ## The conversation -/

section Conversation

variable {m : Type → Type} [Monad m] [LawfulMonad m] (cb : Callbacks m)

/-- The files of a section are numbered by asking one question after the other. -/
theorem numberFiles_eq (s : Sections) (name : Name) (files : List Name) :
    (fun numbers => { s with numbers }) <$> numberFiles cb name files s.numbers =
      (files.map (.number name)).foldlM cb.consult s := by
  induction files generalizing s with
  | nil => simp [numberFiles]
  | cons file files ih =>
    rw [numberFiles, List.map_cons, List.foldlM_cons, map_bind]
    simp only [Callbacks.consult, Callbacks.ask, Functor.map_map, bind_map_left]
    exact bind_congr fun n => ih (s.heed (.number name file n))

/-- Before the section that is finished next there are those that are finished already. -/
theorem finish_eq (s : Sections) {before ss : List Section} (hss : s.sections = before ++ ss)
    (hnames : s.names.Nodup) (files : List Name) :
    (fun r => { s with sections := before ++ r.1, numbers := r.2 }) <$>
        finish cb files ss s.numbers =
      ((ss.map (·.name)).flatMap (questionsAbout files)).foldlM cb.consult s := by
  induction ss generalizing s before with
  | nil =>
    obtain ⟨sections, files, numbers⟩ := s
    cases hss
    simp [finish]
  | cons sec ss ih =>
    have hfirst : ∀ sec' ∈ before, (sec'.name == sec.name) = false := by
      intro sec' hsec'
      rw [names, hss, List.map_append, List.map_cons] at hnames
      exact beq_false_of_ne ((List.nodup_append.1 hnames).2.2 _ (List.mem_map_of_mem hsec') _
        List.mem_cons_self)
    simp only [finish, questionsAbout, List.map_cons, List.flatMap_cons, List.cons_append,
      List.append_assoc, List.nil_append, List.foldlM_cons, List.foldlM_append,
      ← numberFiles_eq, Callbacks.consult, Callbacks.ask, Functor.map_map, map_bind,
      bind_map_left, bind_pure_comp]
    refine bind_congr fun stop => bind_congr fun numbers => bind_congr fun _ => ?_
    have hsections : (s.setStop sec.name stop).sections =
        (before ++ [{ sec with stop := some stop }]) ++ ss := by
      rw [setStop, hss, List.append_assoc]
      exact updateFirst_append_cons _ hfirst (beq_self_eq_true sec.name) ss
    have hrest := ih { s.setStop sec.name stop with numbers } hsections
      ((names_setStop s sec.name stop).symm ▸ hnames)
    simp only [List.append_assoc] at hrest
    exact hrest

/-- An enumeration asks the questions in order and does nothing else, whatever the caller does when
it is asked. -/
theorem enumerate_eq (s : Sections) (h : s.names.Nodup) :
    s.enumerate cb = s.questions.foldlM cb.consult s := by
  have hfinish := finish_eq cb s (List.nil_append s.sections).symm h s.fileList
  rw [enumerate, bind_pure_comp]
  exact hfinish

end Conversation

/-! ## Answers -/

section Answers

variable {σ : Type} (cb : Callbacks (StateM σ)) (q : Question) (qs qs' : List Question) (st : σ)

/-- The answers to questions that are asked in order, and the state after them. -/
def answers : List Call × σ := (qs.mapM cb.ask : StateM σ (List Call)) st

/-- The answers to some questions do not depend on what is asked later. -/
theorem answers_append :
    answers cb (qs ++ qs') st =
      ((answers cb qs st).1 ++ (answers cb qs' (answers cb qs st).2).1,
        (answers cb qs' (answers cb qs st).2).2) := by
  simp only [answers, List.mapM_append]
  rfl

theorem answers_cons :
    answers cb (q :: qs) st =
      ((cb.ask q st).1 :: (answers cb qs (cb.ask q st).2).1,
        (answers cb qs (cb.ask q st).2).2) := by
  simp only [answers, List.mapM_cons]
  rfl

/-- A call that is recorded says what was asked. -/
theorem question_ask : (cb.ask q st).1.question = q := by
  cases q <;> rfl

/-- Every question is answered, and in order. -/
theorem map_question_answers : (answers cb qs st).1.map (·.question) = qs := by
  induction qs generalizing st with
  | nil => rfl
  | cons q qs ih => rw [answers_cons, List.map_cons, question_ask, ih]

/-- The conversation comes to writing down the answers. -/
theorem foldlM_consult (s : Sections) :
    qs.foldlM cb.consult s st =
      ((answers cb qs st).1.foldl heed s, (answers cb qs st).2) := by
  induction qs generalizing s st with
  | nil => rfl
  | cons q qs ih =>
    rw [List.foldlM_cons, answers_cons]
    exact ih (cb.ask q st).2 (s.heed (cb.ask q st).1)

/-- A table is enumerated by getting all the answers first and writing them down afterwards. -/
theorem enumerate_apply (s : Sections) (h : s.names.Nodup) :
    s.enumerate cb st =
      ((answers cb s.questions st).1.foldl heed s, (answers cb s.questions st).2) := by
  rw [enumerate_eq cb s h, foldlM_consult]

/-- The same callbacks, which also write down each call with its answer, the last one first. -/
def recording : Callbacks (StateM (σ × List Call)) where
  stop name := fun (st, log) =>
    let (addr, st) := cb.stop name st
    (addr, st, .stop name addr :: log)
  number name file := fun (st, log) =>
    let (n, st) := cb.number name file st
    (n, st, .number name file n :: log)
  close name := fun (st, log) =>
    let (_, st) := cb.close name st
    ((), st, .close name :: log)

theorem ask_recording (log : List Call) :
    (recording cb).ask q (st, log) =
      ((cb.ask q st).1, (cb.ask q st).2, (cb.ask q st).1 :: log) := by
  cases q <;> rfl

/-- To record the calls changes neither the answers nor the state of the callbacks. -/
theorem answers_recording (log : List Call) :
    answers (recording cb) qs (st, log) =
      ((answers cb qs st).1, (answers cb qs st).2, (answers cb qs st).1.reverse ++ log) := by
  induction qs generalizing st log with
  | nil => rfl
  | cons q qs ih => simp [answers_cons, ask_recording, ih]

end Answers

/-! ## What is written down -/

section Heed

variable (s : Sections) {c : Call} {calls : List Call} {n : FileNumber} {addr : Address}

/-- An answer to another question does not change a number. -/
theorem number?_heed_of_ne (h : c.question ≠ .number name file) :
    (s.heed c).number? name file = s.number? name file := by
  cases c with
  | stop | close => rfl
  | number name' file' n =>
    have hne : (name', file') ≠ (name, file) := by
      rintro ⟨⟩
      exact h rfl
    simp [heed, setNumber, number?, Std.ExtTreeMap.getElem?_insert, hne]

/-- The end of a section is set where the section is found. -/
theorem get?_setStop_self (name : Name) (stop : Address) :
    (s.setStop name stop).get? name =
      (s.get? name).map fun sec => { sec with stop := some stop } := by
  unfold get? setStop
  refine find?_updateFirst_self ?_ s.sections
  exact fun _ h => h

theorem get?_setStop_of_ne {name' : Name} (h : name' ≠ name) (stop : Address) :
    (s.setStop name' stop).get? name = s.get? name := by
  unfold get? setStop
  refine find?_updateFirst_of_not ?_ (fun sec hsec => ?_) s.sections
  · exact fun _ => rfl
  · rw [eq_of_beq hsec]
    exact beq_false_of_ne h

/-- An answer to another question does not change a section. -/
theorem get?_heed_of_ne (h : c.question ≠ .stop name) : (s.heed c).get? name = s.get? name := by
  cases c with
  | number | close => rfl
  | stop name' addr =>
    refine get?_setStop_of_ne s ?_ addr
    rintro rfl
    exact h rfl

section Once

variable {α : Type} (f : Sections → α) {q : Question}
  (hother : ∀ s c, c.question ≠ q → f (s.heed c) = f s)
include hother

/-- What an answer does not tell is not changed by other answers either. -/
theorem foldl_heed_of_ne (h : ∀ c ∈ calls, c.question ≠ q) : f (calls.foldl heed s) = f s := by
  induction calls generalizing s with
  | nil => rfl
  | cons c calls ih =>
    obtain ⟨hc, hcalls⟩ := List.forall_mem_cons.1 h
    rw [List.foldl_cons, ih _ hcalls, hother s c hc]

/-- What only the answer to one question tells is as it was told, if nothing is asked twice. -/
theorem foldl_heed_of_mem (hnodup : (calls.map (·.question)).Nodup) (hc : c ∈ calls)
    (hq : c.question = q) (g : α → α) (hown : ∀ s, f (s.heed c) = g (f s)) :
    f (calls.foldl heed s) = g (f s) := by
  obtain ⟨before, after, rfl⟩ := List.append_of_mem hc
  rw [List.map_append, List.map_cons, hq] at hnodup
  obtain ⟨-, hcons, hdisjoint⟩ := List.nodup_append.1 hnodup
  have hbefore : ∀ c' ∈ before, c'.question ≠ q := fun c' hc' =>
    hdisjoint _ (List.mem_map_of_mem hc') _ List.mem_cons_self
  have hafter : ∀ c' ∈ after, c'.question ≠ q := fun c' hc' heq =>
    (List.nodup_cons.1 hcons).1 (heq ▸ List.mem_map_of_mem hc')
  rw [List.foldl_append, List.foldl_cons, foldl_heed_of_ne _ f hother hafter, hown,
    foldl_heed_of_ne s f hother hbefore]

end Once

variable (hnodup : (calls.map (·.question)).Nodup)
include hnodup

/-- The number that was answered is the one that is found. -/
theorem number?_foldl_heed (hc : .number name file n ∈ calls) :
    (calls.foldl heed s).number? name file = some n := by
  refine foldl_heed_of_mem s (fun s => s.number? name file) (fun s c h => ?_) hnodup hc rfl
    (fun _ => some n) fun s => ?_
  · exact number?_heed_of_ne s h
  · simp [heed, setNumber, number?]

/-- The end that was answered is the one that is found. -/
theorem get?_foldl_heed (hc : .stop name addr ∈ calls) :
    (calls.foldl heed s).get? name =
      (s.get? name).map fun sec => { sec with stop := some addr } := by
  refine foldl_heed_of_mem s (fun s => s.get? name) (fun s c h => ?_) hnodup hc rfl
    (Option.map fun sec => { sec with stop := some addr }) fun s => ?_
  · exact get?_heed_of_ne s h
  · exact get?_setStop_self s name addr

end Heed

/-! ## Enumerations -/

/-- After any history, what has a number is a file in a section that is registered. -/
theorem accounted_run (history : List Operation) : (run history).Accounted := by
  induction history using List.reverseRecOn with
  | nil => exact accounted_empty
  | append_singleton history op ih =>
    rw [run_concat]
    cases op with
    | clear => exact accounted_empty
    | setStart name start => exact ih.setStart name start
    | setStop name stop => exact ih.setStop name stop
    | addFile file => exact ih.addFile file
    | enumerate cb start => exact ih.enumerate cb start

/-- What an enumeration makes of a table by means of the calls in it. -/
structure Finishes (s : Sections) (calls : List Call) (s' : Sections) : Prop where
  /-- The calls ask these questions in this order. -/
  asked : calls.map (·.question) = s.questions
  once : s.questions.Nodup
  files : s'.files = s.files
  /-- A section gets the end that was answered for it.  Its name, its place and its start stay. -/
  sections : List.Forall₂ (fun sec sec' => ∃ addr, .stop sec.name addr ∈ calls ∧
    sec' = { sec with stop := some addr }) s.sections s'.sections
  /-- The numbers are those that were answered, and there are no others. -/
  numbers : ∀ name file n, s'.number? name file = some n ↔ .number name file n ∈ calls

section Finishes

variable {calls : List Call} (hasked : calls.map (·.question) = s.questions)
include hasked

/-- Every section was asked for its end. -/
theorem exists_stop_mem (h : name ∈ s.names) : ∃ addr, .stop name addr ∈ calls := by
  rw [← stop_mem_questions, ← hasked] at h
  obtain ⟨c, hc, hquestion⟩ := List.mem_map.1 h
  cases c with
  | stop name' addr =>
    cases hquestion
    exact ⟨addr, hc⟩
  | number | close => cases hquestion

/-- Every section was asked for the number of every file. -/
theorem exists_number_mem (hname : name ∈ s.names) (hfile : file ∈ s.fileList) :
    ∃ n, .number name file n ∈ calls := by
  have h := number_mem_questions.2 ⟨hname, hfile⟩
  rw [← hasked] at h
  obtain ⟨c, hc, hquestion⟩ := List.mem_map.1 h
  cases c with
  | number name' file' n =>
    cases hquestion
    exact ⟨n, hc⟩
  | stop | close => cases hquestion

end Finishes

/-- An enumeration asks everything once, and all that is found afterwards is what was answered. -/
theorem finishes_enumerate {σ : Type} (hnames : s.names.Nodup) (haccounted : s.Accounted)
    (cb : Callbacks (StateM σ)) (st : σ) :
    s.Finishes (answers cb s.questions st).1 (s.enumerate cb st).1 := by
  have hasked := map_question_answers cb s.questions st
  have honce := nodup_questions hnames
  have hfold : (s.enumerate cb st).1 = (answers cb s.questions st).1.foldl heed s := by
    rw [enumerate_apply cb st s hnames]
  refine ⟨hasked, honce, rfl, ?_, fun name file n => ⟨fun hn => ?_, fun hn => ?_⟩⟩
  · refine forall₂_sections hnames (names_enumerate cb st s) fun sec sec' hsec hsec' => ?_
    have hmem := ((get?_eq_some_iff hnames).1 hsec).1
    obtain ⟨addr, haddr⟩ := exists_stop_mem hasked (List.mem_map_of_mem hmem)
    have hstop := get?_foldl_heed s (hasked.symm ▸ honce) haddr
    rw [← hfold, hsec', hsec] at hstop
    exact ⟨addr, haddr, Option.some.inj hstop⟩
  · have hnumbered : (s.enumerate cb st).1.Numbered name file := by simp [Numbered, hn]
    obtain ⟨hname, hfile⟩ := (haccounted.numbered_enumerate cb st name file).1 hnumbered
    obtain ⟨n', hn'⟩ := exists_number_mem hasked hname (mem_fileList.2 hfile)
    have hnumber := number?_foldl_heed s (hasked.symm ▸ honce) hn'
    rw [← hfold, hn] at hnumber
    cases hnumber
    exact hn'
  · rw [hfold]
    exact number?_foldl_heed s (hasked.symm ▸ honce) hn

/-! ## Counting -/

/-- Files are numbered by counting, whatever else the callbacks do. -/
structure Counts {σ : Type} (cb : Callbacks (StateM σ)) (next : σ → FileNumber) : Prop where
  stop : ∀ name st, next (cb.stop name st).2 = next st
  number : ∀ name file st, (cb.number name file st).1 = next st ∧
    next (cb.number name file st).2 = (next st).next
  close : ∀ name st, next (cb.close name st).2 = next st

/-- The callbacks that count do count. -/
theorem counts_counting (stop : Name → Address) : Counts (counting stop) Counter.next where
  stop _ _ := rfl
  number _ _ _ := ⟨rfl, rfl⟩
  close _ _ := rfl

theorem countP_questionsAbout (files : List Name) (name : Name) :
    (questionsAbout files name).countP Question.isNumber = files.length := by
  simp [questionsAbout, Question.isNumber]

/-- As many numbers are asked for as there are pairs of a section and a file. -/
theorem countP_questions (files names : List Name) :
    (names.flatMap (questionsAbout files)).countP Question.isNumber =
      names.length * files.length := by
  induction names with
  | nil => simp
  | cons name names ih =>
    rw [List.flatMap_cons, List.countP_append, countP_questionsAbout, ih, List.length_cons,
      Nat.succ_mul, Nat.add_comm]

/-- A list can be cut in front of any of its elements. -/
theorem exists_append_of_getElem? {α : Type} {as : List α} {i : Nat} {a : α}
    (h : as[i]? = some a) : ∃ before after, as = before ++ a :: after ∧ before.length = i := by
  obtain ⟨hi, rfl⟩ := List.getElem?_eq_some_iff.1 h
  exact ⟨as.take i, as.drop (i + 1), by simp, by simp [Nat.le_of_lt hi]⟩

/-- How many numbers are asked for before that of a file in a section. -/
theorem exists_questions_eq {i j : Nat} (hi : s.names[i]? = some name)
    (hj : s.fileList[j]? = some file) :
    ∃ before after, s.questions = before ++ .number name file :: after ∧
      before.countP Question.isNumber = i * s.fileList.length + j := by
  obtain ⟨names, names', hnames, rfl⟩ := exists_append_of_getElem? hi
  obtain ⟨files, files', hfiles, rfl⟩ := exists_append_of_getElem? hj
  have habout : questionsAbout s.fileList name = .stop name :: (files.map (.number name) ++
      .number name file :: (files'.map (.number name) ++ [.close name])) := by
    rw [questionsAbout, hfiles]
    simp
  refine ⟨names.flatMap (questionsAbout s.fileList) ++ .stop name :: files.map (.number name),
    files'.map (.number name) ++ .close name :: names'.flatMap (questionsAbout s.fileList), ?_, ?_⟩
  · simp [questions, hnames, habout]
  · simp [countP_questions, Question.isNumber]

namespace Counts

variable {σ : Type} {cb : Callbacks (StateM σ)} {next : σ → FileNumber} {st : σ}

/-- The counter goes on by one for each number that is asked for. -/
theorem next_answers (h : Counts cb next) {k : Nat} (hk : next st = .ofNat k) (qs : List Question) :
    next (answers cb qs st).2 = .ofNat (k + qs.countP Question.isNumber) := by
  induction qs generalizing st k with
  | nil => exact hk
  | cons q qs ih =>
    rw [answers_cons]
    cases q with
    | stop name => exact ih ((h.stop name st).trans hk)
    | close name => exact ih ((h.close name st).trans hk)
    | number name file =>
      have hnext : next (cb.number name file st).2 = .ofNat (k + 1) := by
        rw [(h.number name file st).2, hk, FileNumber.next_ofNat]
      have hcount : (Question.number name file :: qs).countP Question.isNumber =
          qs.countP Question.isNumber + 1 := List.countP_cons_of_pos rfl
      rw [hcount, Nat.add_comm _ 1, ← Nat.add_assoc]
      exact ih hnext

/-- The number of a file is that of the numbers asked for before it. -/
theorem number_mem_answers (h : Counts cb next) {k : Nat} (hk : next st = .ofNat k)
    (before after : List Question) (name file : Name) :
    .number name file (.ofNat (k + before.countP Question.isNumber)) ∈
      (answers cb (before ++ .number name file :: after) st).1 := by
  rw [answers_append, answers_cons]
  refine List.mem_append_right _ (List.mem_cons.2 (.inl ?_))
  rw [← h.next_answers hk before, ← (h.number name file _).1]
  rfl

end Counts

/-! ## Runs -/

/-- In a table with any history the sections have distinct names, which stand in the order in which
they were first registered, and under each name its section is found.

An enumeration of it asks for the end of a section, the numbers of the files and the closing of the
section, for one section after the other.  What it was told is in the table afterwards.  In
particular, if the caller counts, the numbers go through all files of the first section, then
through all files of the next one, and so on, modulo the range of numbers. -/
theorem run_enumerates {σ : Type} (history : List Operation) (cb : Callbacks (StateM σ)) (st : σ) :
    let s := run history
    let s' := (s.enumerate cb st).1
    s.Registers history ∧
    ∃ calls,
      s.enumerate (recording cb) (st, []) = (s', (s.enumerate cb st).2, calls.reverse) ∧
      s.Finishes calls s' ∧
      ∀ next, Counts cb next → ∀ i j name file,
        s.names[i]? = some name → s.fileList[j]? = some file →
        s'.number? name file =
          some (.ofNat ((next st).raw.toNat + (i * s.fileList.length + j))) := by
  intro s s'
  have hnames := nodup_names_run history
  have hfinishes := finishes_enumerate hnames (accounted_run history) cb st
  refine ⟨run_registers history, (answers cb s.questions st).1, ?_, hfinishes, ?_⟩
  · have hlog : s' = _ := congrArg Prod.fst (enumerate_apply cb st s hnames)
    rw [enumerate_apply (recording cb) (st, []) s hnames, answers_recording, List.append_nil, hlog,
      enumerate_apply cb st s hnames]
  · intro next hcounts i j name file hi hj
    obtain ⟨before, after, hquestions, hbefore⟩ := exists_questions_eq hi hj
    rw [hfinishes.numbers, hquestions, ← hbefore]
    exact hcounts.number_mem_answers (FileNumber.ofNat_toNat _).symm before after name file

/-- The counter runs over, and a number of the earlier enumeration is replaced. -/
theorem run_enumerates_overrun :
    let cb := counting fun _ => ⟨0⟩
    let history : List Operation := [.setStart ⟨1⟩ ⟨0⟩, .setStart ⟨2⟩ ⟨8⟩, .addFile ⟨7⟩,
      .enumerate cb { next := ⟨5⟩ }, .setStart ⟨1⟩ ⟨4⟩, .addFile ⟨6⟩]
    (run history).names = [⟨1⟩, ⟨2⟩] ∧ (run history).fileList = [⟨6⟩, ⟨7⟩] ∧
    (run history).number? ⟨2⟩ ⟨7⟩ = some ⟨6⟩ ∧
    ((run history).enumerate cb { next := ⟨0xFFFFFFFE⟩ }).1.number? ⟨2⟩ ⟨7⟩ = some ⟨1⟩ := by
  intro cb history
  obtain ⟨-, calls, -, -, hcounts⟩ := run_enumerates history cb { next := ⟨0xFFFFFFFE⟩ }
  have hfiles : (run history).fileList = [⟨6⟩, ⟨7⟩] := by decide
  have hnames : (run history).names = [⟨1⟩, ⟨2⟩] := by decide
  have hnumber := hcounts Counter.next (counts_counting _) 1 1 ⟨2⟩ ⟨7⟩ (by rw [hnames]; rfl)
    (by rw [hfiles]; rfl)
  refine ⟨hnames, hfiles, by decide, ?_⟩
  rw [hnumber, hfiles]
  decide

end Sections

end DebugInfo
