import DebugInfo.Proofs.Failure.Tables
import DebugInfo.Proofs.Unit.Coherence
import DebugInfo.Proofs.Unit.TypeDefinitions

/-!
# When operations fail

An operation fails if it is misused: a stamp or a symbol is used for a function that is one of a
variable, or the other way round, or an update is used for a type that is of another kind or is
none.  The unit can tell this before the operation starts.  In a unit that was filled by operations
there is no other way to fail, and what a failed operation leaves behind is the mention it began
with.
-/

namespace DebugInfo.CompilationUnit

variable {σ α : Type}

/-- What an operation is misused for, as the error that says so.  The operations that are not listed
cannot be misused. -/
def Misuse (u : CompilationUnit) : Operation σ → TableError → Prop
  | .declare (.variable d), e =>
      u.definitions.MistakesFunction (u.definitions.idByStamp? d.stamp) e
  | .declare (.prototype d), e =>
      u.definitions.MistakesVariable (u.definitions.idByStamp? d.stamp) e
  | .declare (.function d), e =>
      u.definitions.MistakesVariable (u.definitions.idByStamp? d.stamp) e
  | .enterFunction function _, e =>
      u.tracksLocals = true ∧
        u.definitions.MistakesVariable (u.definitions.idByStamp? function) e
  | .bindCode symbol _, e =>
      u.definitions.MistakesVariable (u.definitions.idBySymbol? symbol) e
  | .bindParameter function _ _, e =>
      u.definitions.MistakesVariable (u.definitions.idByStamp? function) e
  | .updateType id update, e =>
      (u.types.get? id = none ∧ e = .unknownId .types id) ∨
      ∃ d, u.types.get? id = some d ∧ d.kindName ∉ update.kinds ∧
        e = .unexpectedVariant .types id update.expected d.kindName
  | _, _ => False

variable {u u' : CompilationUnit} {e : TableError}

/-! ## Failing -/

/-- An operation fails if and only if what it runs does, whatever is made of the answer. -/
theorem apply_eq_error_iff_run {m : UnitM α} {f : α → Answer} {op : Operation σ}
    (hop : perform op = do return f (← m)) :
    u.apply op = (.error e, u') ↔ m u = (.error e, u') := by
  rw [apply, hop, answer_apply]
  rcases m u with ⟨e' | a, v⟩
  · exact error_eq_error_iff.trans error_eq_error_iff.symm
  · exact iff_of_false ok_ne_error ok_ne_error

/-- An update that fails has noted the file of its location, and nothing else. -/
theorem updateType_eq_error_iff {id : EntryId} {update : TypeUpdate} :
    updateType id update u = (.error e, u') ↔
      u.types.update id update = .error e ∧ u' = u.mention update.file? [] := by
  rw [updateType_apply]
  rcases u.types.update id update with e' | ⟨changed, types⟩
  · rw [Except.error.injEq]
    exact error_eq_error_iff
  · exact iff_of_false ok_ne_error fun h => nomatch h.1

/-- The scope is set for a function that was looked at already. -/
theorem enterFunction_eq_error_iff {function : Stamp} {block : Block} :
    enterFunction function block u = (.error e, u') ↔
      (u.tracksLocals = true ∧ ∃ id, u.definitions.idByStamp? function = some id ∧
        u.definitions.functionAt id = .error e) ∧ u' = u := by
  cases htracks : u.tracksLocals with
  | false =>
    simp only [enterFunction, htracks]
    exact iff_of_false ok_ne_error fun h => Bool.false_ne_true h.1.1
  | true =>
    cases hid : u.definitions.idByStamp? function with
    | none =>
      simp only [enterFunction, htracks, hid, if_true]
      exact iff_of_false ok_ne_error (by rintro ⟨⟨-, _, ⟨⟩, -⟩, -⟩)
    | some id =>
      cases hf : u.definitions.functionAt id with
      | error e' =>
        simp only [enterFunction, htracks, hid, hf, if_true, Option.some.injEq, exists_eq_left',
          true_and, Except.error.injEq]
        exact error_eq_error_iff
      | ok f =>
        have hroot (x : EntryId) : u.definitions.setRootScope id x =
            .ok (u.definitions.put id (.function { f with rootScope := some x })) :=
          Definitions.setRootScope_eq_ok_iff.2 ⟨f, Definitions.functionAt_eq_ok_iff.1 hf, rfl⟩
        simp only [enterFunction, htracks, hid, hf, hroot, if_true]
        refine iff_of_false ok_ne_error ?_
        rintro ⟨⟨-, _, ⟨⟩, herror⟩, -⟩
        cases hf.symm.trans herror

section Locals

variable (h : u.locals.FindsScopes)
include h

/-- A scope that is found is one. -/
theorem childrenAt_ne_error {function : Stamp} {block : Block} {x : EntryId}
    (hx : u.locals.scopeByStamp? function block = some x) : u.locals.childrenAt x ≠ .error e := by
  obtain ⟨children, hchildren⟩ := h function block x hx
  rw [Locals.childrenAt_eq_ok_iff.2 hchildren]
  exact fun h => nomatch h

/-- A block inside of another one is never refused. -/
theorem enterChild_ne_error (function : Stamp) (parent block : Block) :
    enterChild function parent block u ≠ (.error e, u') := by
  rw [enterChild_apply]
  split
  · rw [ne_eq, onLocals_eq_error_iff, Locals.enterChild_eq_error_iff]
    rintro ⟨⟨x, hx, herror⟩, -⟩
    exact childrenAt_ne_error h hx herror
  · exact ok_ne_error

/-- A variable is never refused by a scope. -/
theorem attach_ne_error (function stamp : Stamp) (block : Block) :
    attach function stamp block u ≠ (.error e, u') := by
  rw [attach_apply]
  split
  · rw [ne_eq, onLocals_eq_error_iff, Definitions.map_eq_error_iff, Locals.attach_eq_error_iff]
    rintro ⟨⟨var, scope, -, hscope, herror⟩, -⟩
    exact childrenAt_ne_error h hscope herror
  · exact ok_ne_error

end Locals

/-! ## Operations -/

/-- A declaration fails if and only if it is misused, and then it has mentioned its file and its
types. -/
theorem declare_eq_error_iff (h : Coherent u) (d : Declaration) :
    declare d u = (.error e, u') ↔
      u.Misuse (.declare d : Operation σ) e ∧ u' = u.mention (some d.loc.file) d.types := by
  have hdefines (hd : d.definesType = true) : declare d u ≠ (.error e, u') := by
    obtain ⟨id, ids, types, hok⟩ := declare_of_definesType h.bases hd
    rw [hok]
    exact ok_ne_error
  obtain d | d | d | d | d | d := d
  · rw [declare, declareVariable_apply, onDefinitions_eq_error_iff]
    refine and_congr_left fun _ => ?_
    rw [Definitions.declareVariable_eq_error_iff]
    exact Definitions.mistakesFunction_iff (h.grounded.byStamp d.stamp)
  · rw [declare, defineFunction_mention, onDefinitions_eq_error_iff]
    refine and_congr_left fun _ => ?_
    rw [Definitions.defineFunction_eq_error_iff]
    exact h.grounded.mistakesVariable_idOf?_iff _
  · rw [declare, declarePrototype_mention, onDefinitions_eq_error_iff]
    refine and_congr_left fun _ => ?_
    rw [Definitions.declarePrototype_eq_error_iff]
    exact h.grounded.mistakesVariable_idOf?_iff _
  -- What defines a type does not fail.
  all_goals exact iff_of_false (hdefines rfl) fun h => h.1

/-- A change of the definitions that fails does nothing. -/
theorem changeDefinitions_eq_error_iff
    {f : Definitions → Except TableError (Bool × Definitions)} :
    changeDefinitions f u = (.error e, u') ↔ f u.definitions = .error e ∧ u' = u := by
  rw [changeDefinitions, onDefinitions_eq_error_iff, Definitions.map_eq_error_iff]

/-- In a coherent unit, an operation fails if and only if it is misused, and what it leaves behind
is a mention. -/
theorem Coherent.apply_eq_error_iff (h : Coherent u) (op : Operation σ) :
    u.apply op = (.error e, u') ↔ u.Misuse op e ∧ u' = u.mention op.file? op.types := by
  cases op with
  | declare d =>
    rw [apply_eq_error_iff_run rfl]
    exact declare_eq_error_iff h d
  | updateType id update =>
    rw [apply_eq_error_iff_run rfl, updateType_eq_error_iff, TypeTable.update_eq_error_iff]
    rfl
  | enterFunction function block =>
    rw [apply_eq_error_iff_run rfl, enterFunction_eq_error_iff,
      Definitions.mistakesVariable_iff (h.grounded.byStamp function)]
    rfl
  | enterChild function parent block =>
    rw [apply_eq_error_iff_run rfl]
    exact iff_of_false (enterChild_ne_error h.scopes function parent block) fun h => h.1
  | attach function stamp block =>
    rw [apply_eq_error_iff_run rfl]
    exact iff_of_false (attach_ne_error h.scopes function stamp block) fun h => h.1
  | bindCode symbol code =>
    rw [apply_eq_error_iff_run rfl, bindCode, changeDefinitions_eq_error_iff,
      Definitions.bindCode_eq_error_iff,
      Definitions.mistakesVariable_iff (h.grounded.bySymbol symbol)]
    rfl
  | bindParameter function param symbol =>
    rw [apply_eq_error_iff_run rfl, bindParameter, changeDefinitions_eq_error_iff,
      Definitions.bindParameter_eq_error_iff,
      Definitions.mistakesVariable_iff (h.grounded.byStamp function)]
    rfl
  | _ => exact iff_of_false ok_ne_error fun h => h.1

/-! ## Runs -/

/-- Only an update of a type is given an id that may lead nowhere. -/
theorem misuse_unknownId_iff {op : Operation σ} {table : Table} {id : EntryId} :
    u.Misuse op (.unknownId table id) ↔
      table = .types ∧ u.types.get? id = none ∧ ∃ update, op = .updateType id update := by
  have hvariable {id? : Option EntryId} :
      ¬ u.definitions.MistakesVariable id? (.unknownId table id) := by
    rintro ⟨_, _, _, _, ⟨⟩⟩
  have hfunction {id? : Option EntryId} :
      ¬ u.definitions.MistakesFunction id? (.unknownId table id) := by
    rintro ⟨_, _, _, _, ⟨⟩⟩
  cases op with
  | updateType id' update =>
    constructor
    · rintro (⟨hnone, ⟨⟩⟩ | ⟨_, _, _, ⟨⟩⟩)
      exact ⟨rfl, hnone, update, rfl⟩
    · rintro ⟨rfl, hnone, _, ⟨⟩⟩
      exact .inl ⟨hnone, rfl⟩
  | declare d =>
    refine iff_of_false ?_ (by rintro ⟨-, -, _, ⟨⟩⟩)
    obtain d | d | d | d | d | d := d
    · exact hfunction
    · exact hvariable
    · exact hvariable
    all_goals exact not_false
  | enterFunction => exact iff_of_false (fun h => hvariable h.2) (by rintro ⟨-, -, _, ⟨⟩⟩)
  | bindCode | bindParameter => exact iff_of_false hvariable (by rintro ⟨-, -, _, ⟨⟩⟩)
  | _ => exact iff_of_false not_false (by rintro ⟨-, -, _, ⟨⟩⟩)

/-- After any run, an operation fails if and only if it is misused, with the error that says what
for.  That an id is unknown is said by updates of types only, and of ids that are those of no
type. -/
theorem run_fails_iff_misused (config : Config) (ops : List (Operation σ)) (op : Operation σ) :
    let u := run config ops
    (∀ e, (u.apply op).1 = .error e ↔ u.Misuse op e) ∧
      ∀ table id, (u.apply op).1 = .error (.unknownId table id) ↔
        table = .types ∧ u.types.get? id = none ∧ ∃ update, op = .updateType id update := by
  intro u
  have hfails (e : TableError) : (u.apply op).1 = .error e ↔ u.Misuse op e := by
    constructor
    · intro herror
      exact (((run_coherent config ops).apply_eq_error_iff op).1 (Prod.ext herror rfl)).1
    · intro hmisuse
      rw [((run_coherent config ops).apply_eq_error_iff op).2 ⟨hmisuse, rfl⟩]
  exact ⟨hfails, fun table id => (hfails _).trans misuse_unknownId_iff⟩

end DebugInfo.CompilationUnit
