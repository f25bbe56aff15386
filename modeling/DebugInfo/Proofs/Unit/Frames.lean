import Mathlib.Data.List.Induction
import DebugInfo.Proofs.Unit.Coherence
import DebugInfo.Proofs.Unit.TypeDefinitions

/-!
# What an operation leaves alone

The name of a unit, its sections with their files, and its labels are changed by operations in a
way that depends on nothing else in the unit, not even on whether the operation fails.  Of the
tables, most operations change one or two, and which ones can be read off the operation.
-/

namespace DebugInfo.CompilationUnit

variable {σ α : Type}

/-! ## Output -/

def Operation.onName : Operation σ → String → String
  | .restart name, _ => name
  | _, name => name

/-- What an operation makes of the sections, the files and their numbers. -/
def Operation.onSections : Operation σ → Sections → Sections
  | .restart _, _ => ∅
  | .setSectionStart name start, s => s.setStart name start
  | .setSectionStop name stop, s => s.setStop name stop
  | .enumerate cb start, s => (s.enumerate cb start).1
  | op, s => op.file?.elim s s.addFile

def Operation.onLabels : Operation σ → Labels → Labels
  | .restart _, _ => ∅
  | .addLabel function position addr, l => l.add function position addr
  | _, l => l

/-! ## Tables -/

def Operation.changesDefinitions : Operation σ → Bool
  | .restart _ | .enterFunction _ _ | .bindSymbol _ _ | .bindCode _ _ | .bindParameter _ _ _
  | .markPrinted _ => true
  | .declare d => !d.definesType
  | _ => false

def Operation.changesLocals : Operation σ → Bool
  | .restart _ | .declareLocal _ | .enterFunction _ _ | .enterChild _ _ _ | .attach _ _ _
  | .bindSymbol _ _ | .bindLocal _ _ => true
  | _ => false

def Operation.changesLifetimes : Operation σ → Bool
  | .restart _ | .emit _ => true
  | _ => false

/-- The unit after an operation, as far as it can be told from the operation and from what it leaves
alone. -/
structure Frame (op : Operation σ) (u u' : CompilationUnit) : Prop where
  config : u'.config = u.config
  name : u'.name = op.onName u.name
  sections : u'.sections = op.onSections u.sections
  labels : u'.labels = op.onLabels u.labels
  definitions : op.changesDefinitions = false → u'.definitions = u.definitions
  locals : op.changesLocals = false → u'.locals = u.locals
  lifetimes : op.changesLifetimes = false → u'.lifetimes = u.lifetimes

/-! ## Operations on one table -/

variable (u : CompilationUnit)

theorem onDefinitions_elsewhere
    (f : Definitions → IdSupply → Except TableError (α × IdSupply × Definitions)) :
    ∃ ids definitions, (onDefinitions f u).2 = { u with ids, definitions } := by
  unfold onDefinitions
  rcases f u.definitions u.ids with e | ⟨a, ids, definitions⟩
  · exact ⟨_, _, rfl⟩
  · exact ⟨ids, definitions, rfl⟩

theorem changeDefinitions_elsewhere
    (f : Definitions → Except TableError (Bool × Definitions)) :
    ∃ ids definitions, (changeDefinitions f u).2 = { u with ids, definitions } :=
  u.onDefinitions_elsewhere _

theorem onLocals_elsewhere
    (f : Locals → IdSupply → Except TableError (α × IdSupply × Locals)) :
    ∃ ids locals, (onLocals f u).2 = { u with ids, locals } := by
  unfold onLocals
  rcases f u.locals u.ids with e | ⟨a, ids, locals⟩
  · exact ⟨_, _, rfl⟩
  · exact ⟨ids, locals, rfl⟩

theorem updateType_elsewhere (id : EntryId) (update : TypeUpdate) :
    ∃ types, (updateType id update u).2 = { u.mention update.file? [] with types } := by
  rw [updateType_apply]
  rcases u.types.update id update with e | ⟨changed, types⟩
  · exact ⟨_, rfl⟩
  · exact ⟨types, rfl⟩

/-- Record a local variable after interning its type. -/
def recordLocal (d : LocalDecl) : StateM CompilationUnit (Option EntryId) := do
  let type ← internType d.type
  let v : LocalVariable :=
    { name := d.name, loc := d.loc, type, isStatic := d.storage == .static }
  fun u =>
    let (id, ids, locals) := u.locals.declare u.ids d.stamp v
    (some id, { u with ids, locals })

/-- The file is noted in any case, and the rest is done by a unit that tracks locals. -/
theorem declareLocal_apply (d : LocalDecl) :
    declareLocal d u =
      if u.tracksLocals then recordLocal d (addFile d.loc.file u).2
      else (none, (addFile d.loc.file u).2) := by
  have hrun : declareLocal d u =
      (if u.tracksLocals then recordLocal d else pure none : StateM CompilationUnit _)
        (addFile d.loc.file u).2 := rfl
  rw [hrun]
  split <;> rfl

/-- To declare a local changes types, locals and files only. -/
theorem declareLocal_elsewhere (d : LocalDecl) :
    ∃ ids types locals, (declareLocal d u).2 =
      { (addFile d.loc.file u).2 with ids, types, locals } := by
  rw [declareLocal_apply]
  split <;> exact ⟨_, _, _, rfl⟩

/-- A declaration changes types, definitions and files only, and the definitions not if it defines a
type. -/
theorem declare_elsewhere (h : TypeTable.FindsBases (u.ids, u.types)) (d : Declaration) :
    ∃ ids types definitions, (declare d u).2 =
      { (addFile d.loc.file u).2 with ids, types, definitions } ∧
      (d.definesType = true → definitions = u.definitions) := by
  cases hd : d.definesType with
  | true =>
    obtain ⟨id, ids, types, hrun⟩ := declare_of_definesType h hd
    exact ⟨ids, types, u.definitions, by rw [hrun]; rfl, fun _ => rfl⟩
  | false =>
    have hmention {m : UnitM EntryId}
        {f : Definitions → IdSupply → Except TableError (EntryId × IdSupply × Definitions)}
        (hm : m u = onDefinitions f (u.mention (some d.loc.file) d.types)) :
        ∃ ids types definitions, (m u).2 =
          { (addFile d.loc.file u).2 with ids, types, definitions } := by
      obtain ⟨ids, definitions, heq⟩ :=
        onDefinitions_elsewhere (u.mention (some d.loc.file) d.types) f
      exact ⟨ids, _, definitions, by rw [hm, heq]; rfl⟩
    suffices hrun : ∃ ids types definitions, (declare d u).2 =
        { (addFile d.loc.file u).2 with ids, types, definitions } by
      obtain ⟨ids, types, definitions, heq⟩ := hrun
      exact ⟨ids, types, definitions, heq, fun h => nomatch h⟩
    obtain d | d | d | d | d | d := d
    · exact hmention (declareVariable_apply u d)
    · exact hmention (defineFunction_mention u d)
    · exact hmention (declarePrototype_mention u d)
    all_goals cases hd

/-- To enter a function changes locals and definitions only. -/
theorem enterFunction_elsewhere (function : Stamp) (block : Block) :
    ∃ ids locals definitions,
      (enterFunction function block u).2 = { u with ids, locals, definitions } := by
  rcases u.enterFunction_cases function block with ⟨answer, hrun, -⟩ |
    ⟨id, f, x, ids, l, -, -, -, hrun⟩
  · exact ⟨_, _, _, by rw [hrun]⟩
  · exact ⟨_, _, _, by rw [hrun]⟩

theorem enterChild_elsewhere (function : Stamp) (parent block : Block) :
    ∃ ids locals, (enterChild function parent block u).2 = { u with ids, locals } := by
  rcases u.enterChild_cases function parent block with ⟨answer, hrun, -⟩ |
    ⟨parentId, x, children, ids, l, l', -, -, -, -, hrun⟩
  · exact ⟨_, _, by rw [hrun]⟩
  · exact ⟨_, _, by rw [hrun]⟩

theorem attach_elsewhere (function stamp : Stamp) (block : Block) :
    ∃ ids locals, (attach function stamp block u).2 = { u with ids, locals } := by
  rw [attach_apply]
  split
  · exact onLocals_elsewhere u _
  · exact ⟨_, _, rfl⟩

/-- To bind a symbol changes locals and definitions only. -/
theorem bindSymbol_elsewhere (stamp : Stamp) (symbol : Symbol) :
    ∃ definitions locals, (bindSymbol stamp symbol u).2 = { u with definitions, locals } := by
  rcases u.bindSymbol_cases stamp symbol with hrun | ⟨id, d, -, -, hrun⟩
  · exact ⟨_, _, by rw [hrun]⟩
  · exact ⟨_, _, by rw [hrun]⟩

theorem bindLocal_elsewhere (stamp : Stamp) (symbol : Symbol) :
    ∃ locals, (bindLocal stamp symbol u).2 = { u with locals } := by
  unfold bindLocal
  split <;> exact ⟨_, rfl⟩

/-- An emission changes lifetimes only. -/
theorem emit_elsewhere (e : Emission) : ∃ lifetimes, (emit e u).2 = { u with lifetimes } := by
  rcases u.emit_cases e with heq | ⟨event, -, heq⟩
  · exact ⟨_, heq⟩
  · exact ⟨_, heq⟩

/-! ## All operations -/

theorem apply_snd {m : UnitM α} {f : α → Answer} {op : Operation σ}
    (hop : perform op = do return f (← m)) : (u.apply op).2 = (m u).2 := by
  rw [apply, hop, answer_apply]

theorem apply_lift_snd {m : StateM CompilationUnit α} {f : α → Answer} {op : Operation σ}
    (hop : perform op = do return f (← liftM m)) : (u.apply op).2 = (m u).2 := by
  rw [apply_of_lift hop rfl]

/-- Every operation keeps to its frame. -/
theorem apply_frame (h : TypeTable.FindsBases (u.ids, u.types)) (op : Operation σ) :
    Frame op u (u.apply op).2 := by
  -- of a table that the operation changes the frame says nothing
  have changed {p : Prop} (h : true = false) : p := Bool.noConfusion h
  cases op with
  | restart =>
    exact ⟨rfl, rfl, rfl, rfl, changed, changed, changed⟩
  | markPrinted => exact ⟨rfl, rfl, rfl, rfl, changed, fun _ => rfl, fun _ => rfl⟩
  | freshId | internType | setSectionStart | setSectionStop | enumerate | addLabel =>
    exact ⟨rfl, rfl, rfl, rfl, fun _ => rfl, fun _ => rfl, fun _ => rfl⟩
  | updateType id update =>
    obtain ⟨types, heq⟩ := u.updateType_elsewhere id update
    rw [apply_snd u rfl, heq]
    exact ⟨rfl, rfl, rfl, rfl, fun _ => rfl, fun _ => rfl, fun _ => rfl⟩
  | declare d =>
    obtain ⟨ids, types, definitions, heq, hsame⟩ := u.declare_elsewhere h d
    rw [apply_snd u rfl, heq]
    refine ⟨rfl, rfl, rfl, rfl, fun hd => hsame ?_, fun _ => rfl, fun _ => rfl⟩
    simpa [Operation.changesDefinitions] using hd
  | declareLocal d =>
    obtain ⟨ids, types, locals, heq⟩ := u.declareLocal_elsewhere d
    rw [apply_lift_snd u rfl, heq]
    exact ⟨rfl, rfl, rfl, rfl, fun _ => rfl, changed, fun _ => rfl⟩
  | enterFunction function block =>
    obtain ⟨ids, locals, definitions, heq⟩ := u.enterFunction_elsewhere function block
    rw [apply_snd u rfl, heq]
    exact ⟨rfl, rfl, rfl, rfl, changed, changed, fun _ => rfl⟩
  | enterChild function parent block =>
    obtain ⟨ids, locals, heq⟩ := u.enterChild_elsewhere function parent block
    rw [apply_snd u rfl, heq]
    exact ⟨rfl, rfl, rfl, rfl, fun _ => rfl, changed, fun _ => rfl⟩
  | attach function stamp block =>
    obtain ⟨ids, locals, heq⟩ := u.attach_elsewhere function stamp block
    rw [apply_snd u rfl, heq]
    exact ⟨rfl, rfl, rfl, rfl, fun _ => rfl, changed, fun _ => rfl⟩
  | bindSymbol stamp symbol =>
    obtain ⟨definitions, locals, heq⟩ := u.bindSymbol_elsewhere stamp symbol
    rw [apply_lift_snd u rfl, heq]
    exact ⟨rfl, rfl, rfl, rfl, changed, changed, fun _ => rfl⟩
  | bindLocal stamp symbol =>
    obtain ⟨locals, heq⟩ := u.bindLocal_elsewhere stamp symbol
    rw [apply_lift_snd u rfl, heq]
    exact ⟨rfl, rfl, rfl, rfl, fun _ => rfl, changed, fun _ => rfl⟩
  | bindCode symbol code =>
    obtain ⟨ids, definitions, heq⟩ := u.changeDefinitions_elsewhere (·.bindCode symbol code)
    rw [apply_snd u rfl, bindCode, heq]
    exact ⟨rfl, rfl, rfl, rfl, changed, fun _ => rfl, fun _ => rfl⟩
  | bindParameter function param symbol =>
    obtain ⟨ids, definitions, heq⟩ :=
      u.changeDefinitions_elsewhere (·.bindParameter function param symbol)
    rw [apply_snd u rfl, bindParameter, heq]
    exact ⟨rfl, rfl, rfl, rfl, changed, fun _ => rfl, fun _ => rfl⟩
  | emit e =>
    obtain ⟨lifetimes, heq⟩ := u.emit_elsewhere e
    have happly : (u.apply (.emit e : Operation σ)).2 = (emit e u).2 := rfl
    rw [happly, heq]
    exact ⟨rfl, rfl, rfl, rfl, fun _ => rfl, fun _ => rfl, changed⟩

/-! ## Runs -/

/-- The output of a run is made from the operations alone. -/
structure OutputOf (config : Config) (ops : List (Operation σ)) (u : CompilationUnit) : Prop where
  config : u.config = config
  name : u.name = ops.foldl (fun name op => op.onName name) ""
  sections : u.sections = ops.foldl (fun s op => op.onSections s) ∅
  labels : u.labels = ops.foldl (fun l op => op.onLabels l) ∅

/-- A run with one more operation ends with it. -/
theorem run_concat (config : Config) (ops : List (Operation σ)) (op : Operation σ) :
    run config (ops ++ [op]) = ((run config ops).apply op).2 := by
  simp [run, runFrom]

/-- The unit before the last operation and after it. -/
theorem run_frame (config : Config) (ops : List (Operation σ)) (op : Operation σ) :
    Frame op (run config ops) (run config (ops ++ [op])) := by
  rw [run_concat]
  exact apply_frame (run config ops) (run_coherent config ops).bases op

/-- After any run the name, the sections and the labels are those of the operations alone. -/
theorem run_output (config : Config) (ops : List (Operation σ)) :
    OutputOf config ops (run config ops) := by
  induction ops using List.reverseRecOn with
  | nil => exact ⟨rfl, rfl, rfl, rfl⟩
  | append_singleton ops op ih =>
    have hframe := run_frame config ops op
    constructor
    · rw [hframe.config, ih.config]
    · rw [hframe.name, ih.name, List.foldl_append]
      rfl
    · rw [hframe.sections, ih.sections, List.foldl_append]
      rfl
    · rw [hframe.labels, ih.labels, List.foldl_append]
      rfl

end DebugInfo.CompilationUnit
