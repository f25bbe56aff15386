import DebugInfo.Proofs.Levels.Correspondence
import DebugInfo.Proofs.Unit.Frames

/-!
# The level of a unit

A unit that makes line tables records nothing about local variables and scopes, and interns other
types and takes other ids than a unit that records everything.  Some operations fail for one of
the two only.  All this does not show in what is kept of the rest: two runs of the same operations
have the same definitions, sections, files, file numbers and labels, whatever their configurations
are.
-/

namespace DebugInfo

/-! ## Tables without locals -/

namespace Locals

/-- Nothing is there but the symbols of functions, which are noted for scopes that may follow. -/
def IsBare (l : Locals) : Prop := ∃ symbols, l = { (∅ : Locals) with symbols }

variable {l : Locals}

/-- Where there are no scopes, to link a symbol only notes it. -/
theorem IsBare.linkSymbol (h : l.IsBare) (function : Stamp) (symbol : Symbol) :
    (l.linkSymbol function symbol).2.IsBare := by
  obtain ⟨symbols, rfl⟩ := h
  have hblocks :
      ({ (∅ : Locals) with symbols := symbols.insert function symbol }).blocksOf function = [] :=
    blocksOf_empty function
  refine ⟨symbols.insert function symbol, ?_⟩
  simp only [Locals.linkSymbol, hblocks, List.foldl_nil]

theorem IsBare.linkSymbolAll (h : l.IsBare) (stamps : List Stamp) (symbol : Symbol) :
    (CompilationUnit.linkSymbolAll stamps symbol l).IsBare := by
  induction stamps generalizing l with
  | nil => exact h
  | cons stamp stamps ih => exact ih (h.linkSymbol stamp symbol)

/-- Where there are no locals, there is none to bind a symbol to. -/
theorem IsBare.bindSymbol_eq_none (h : l.IsBare) (stamp : Stamp) (symbol : Symbol) :
    l.bindSymbol stamp symbol = none := by
  obtain ⟨symbols, rfl⟩ := h
  have hstamp : ({ (∅ : Locals) with symbols }).idByStamp? stamp = none := idByStamp?_empty stamp
  simp only [bindSymbol, hstamp]

end Locals

namespace CompilationUnit

variable {σ α : Type} {u u' : CompilationUnit}

/-! ## Definitions -/

open Definitions (Matches)

/-- What is done to the definitions leaves those that it returns, or the old ones if it fails. -/
theorem definitions_onDefinitions (u : CompilationUnit)
    (f : Definitions → IdSupply → Except TableError (α × IdSupply × Definitions)) :
    (onDefinitions f u).2.definitions = u.definitions.after (f u.definitions u.ids) := by
  unfold onDefinitions
  rcases f u.definitions u.ids with e | ⟨a, ids, g⟩ <;> rfl

/-- To bind a symbol changes the definitions only if one of them has the stamp. -/
theorem definitions_bindSymbol (u : CompilationUnit) (stamp : Stamp) (symbol : Symbol) :
    (bindSymbol stamp symbol u).2.definitions =
      ((u.definitions.bindSymbol stamp symbol).map (·.2)).getD u.definitions := by
  unfold bindSymbol
  cases u.definitions.bindSymbol stamp symbol <;> rfl

/-- Of the result, the type says whether there is one. -/
theorem resultType_untyped (t : TypeExpr Attr) (u : CompilationUnit) :
    ((resultType t u).1.map fun _ => (⟨0⟩ : EntryId)) =
      if t.isPlainVoid then none else some ⟨0⟩ := by
  unfold resultType
  split <;> rfl

/-- Apart from their types the parameters are as they were declared. -/
theorem internParams_untyped (ds : List ParameterDecl) (u : CompilationUnit) :
    (internParams ds u).1.map (·.untyped) =
      ds.map fun d => { name := d.name, stamp := d.stamp, type := ⟨0⟩ } := by
  induction ds generalizing u with
  | nil => rfl
  | cons d ds ih => exact congrArg (List.cons _) (ih (internType d.type u).2)

/-- The ids of the definitions come from the supply, also after types have been interned. -/
theorem covers_mention (h : Coherent u) (file? : Option Name) (ts : List (TypeExpr Attr)) :
    (u.mention file? ts).ids.Covers u.definitions.entries.Has := by
  intro id hid
  have hlt := h.orderly.space.allocated .definitions id hid
  exact Nat.lt_of_lt_of_le hlt (TypeTable.internAll_interns ts (u.ids, u.types)).appends.allocated

section Declaring

variable (hu : Coherent u) (hu' : Coherent u') (h : Matches u.definitions u'.definitions)
include hu hu' h

/-- A variable may be declared in both units. -/
theorem declareVariable_matches (d : VariableDecl) :
    Matches (declareVariable d u).2.definitions (declareVariable d u').2.definitions := by
  rw [declareVariable_apply, declareVariable_apply, definitions_onDefinitions,
    definitions_onDefinitions]
  have hv : (variableOf d (internType d.type (addFile d.loc.file u).2).1).untyped =
      (variableOf d (internType d.type (addFile d.loc.file u').2).1).untyped := rfl
  exact h.declareVariable (covers_mention hu (some d.loc.file) [d.type])
    (covers_mention hu' (some d.loc.file) [d.type]) hv d.stamp _

theorem declarePrototype_matches (d : PrototypeDecl) :
    Matches (declarePrototype d u).2.definitions (declarePrototype d u').2.definitions := by
  rw [declarePrototype_mention, declarePrototype_mention, definitions_onDefinitions,
    definitions_onDefinitions]
  refine h.declarePrototype (covers_mention hu _ _) (covers_mention hu' _ _) ?_
  simp only [prototypeSignatureOf, Signature.untyped, resultType_untyped]

theorem defineFunction_matches (d : FunctionDecl) :
    Matches (defineFunction d u).2.definitions (defineFunction d u').2.definitions := by
  rw [defineFunction_mention, defineFunction_mention, definitions_onDefinitions,
    definitions_onDefinitions]
  refine h.defineFunction (covers_mention hu _ _) (covers_mention hu' _ _) ?_ ?_
  · simp only [signatureOf, Signature.untyped, resultType_untyped]
  · rw [internParams_untyped, internParams_untyped]

end Declaring

/-- The scope of a function is of no account. -/
theorem enterFunction_matches {g : Definitions} (h : Matches u.definitions g) (function : Stamp)
    (block : Block) : Matches (enterFunction function block u).2.definitions g := by
  rcases u.enterFunction_cases function block with ⟨answer, hrun, -⟩ |
    ⟨id, f, x, ids, l, -, hf, -, hrun⟩
  · rw [hrun]
    exact h
  · rw [hrun]
    exact h.put_left hf rfl

/-- The definitions match after the same operation on both units. -/
theorem apply_matches (hu : Coherent u) (hu' : Coherent u')
    (h : Matches u.definitions u'.definitions) (op : Operation σ) :
    Matches (u.apply op).2.definitions (u'.apply op).2.definitions := by
  cases hop : op.changesDefinitions with
  | false =>
    rw [(u.apply_frame hu.bases op).definitions hop, (u'.apply_frame hu'.bases op).definitions hop]
    exact h
  | true =>
    cases op with
    | restart => exact .empty
    | declare d =>
      rw [apply_snd u rfl, apply_snd u' rfl]
      obtain d | d | d | d | d | d := d
      · exact declareVariable_matches hu hu' h d
      · exact defineFunction_matches hu hu' h d
      · exact declarePrototype_matches hu hu' h d
      all_goals cases hop
    | enterFunction function block =>
      rw [apply_snd u rfl, apply_snd u' rfl]
      have hleft := enterFunction_matches h function block
      exact (enterFunction_matches hleft.symm function block).symm
    | bindSymbol stamp symbol =>
      rw [apply_lift_snd u rfl, apply_lift_snd u' rfl, definitions_bindSymbol,
        definitions_bindSymbol]
      exact h.bindSymbol stamp symbol
    | bindCode symbol code =>
      rw [apply_snd u rfl, apply_snd u' rfl, bindCode, changeDefinitions, definitions_onDefinitions,
        definitions_onDefinitions]
      exact h.bindCode symbol code
    | bindParameter function param symbol =>
      rw [apply_snd u rfl, apply_snd u' rfl, bindParameter, changeDefinitions,
        definitions_onDefinitions, definitions_onDefinitions]
      exact h.bindParameter function param symbol
    | markPrinted name => exact h.markPrinted name
    | _ => cases hop

theorem runFrom_matches (hu : Coherent u) (hu' : Coherent u')
    (h : Matches u.definitions u'.definitions) (ops : List (Operation σ)) :
    Matches (u.runFrom ops).definitions (u'.runFrom ops).definitions := by
  induction ops generalizing u u' with
  | nil => exact h
  | cons op ops ih => exact ih (hu.apply op) (hu'.apply op) (apply_matches hu hu' h op)

/-- The definitions of two runs match whatever their configurations. -/
theorem run_matches (config config' : Config) (ops : List (Operation σ)) :
    Matches (run config ops).definitions (run config' ops).definitions :=
  runFrom_matches (coherent_of_isEmpty (isEmpty_new config))
    (coherent_of_isEmpty (isEmpty_new config')) .empty ops

/-! ## Line tables -/

/-- Nothing is recorded about local variables and scopes. -/
structure WithoutLocals (u : CompilationUnit) : Prop where
  config : u.tracksLocals = false
  locals : u.locals.IsBare
  lifetimes : u.lifetimes = ∅

namespace WithoutLocals

variable (h : WithoutLocals u)
include h

/-- To bind a symbol adds no local. -/
theorem isBare_boundLocals (id : EntryId) (symbol : Symbol) (d : Definition) :
    (u.boundLocals id symbol d).IsBare := by
  obtain v | f := d
  · exact h.locals
  · exact h.locals.linkSymbolAll _ symbol

/-- An operation on the locals adds none. -/
theorem isBare_apply {op : Operation σ} (hop : op.changesLocals = true) :
    (u.apply op).2.locals.IsBare := by
  cases op with
  | restart => exact ⟨∅, rfl⟩
  | declareLocal d =>
    rw [apply_lift_snd u rfl, declareLocal_apply, h.config]
    exact h.locals
  | enterFunction function block =>
    rw [apply_snd u rfl, enterFunction, h.config]
    exact h.locals
  | enterChild function parent block =>
    rw [apply_snd u rfl, enterChild_apply, h.config]
    exact h.locals
  | attach function stamp block =>
    rw [apply_snd u rfl, attach_apply, h.config]
    exact h.locals
  | bindSymbol stamp symbol =>
    rw [apply_lift_snd u rfl]
    rcases u.bindSymbol_cases stamp symbol with hrun | ⟨id, d, -, -, hrun⟩
    · rw [hrun]
      exact h.locals
    · rw [hrun]
      exact h.isBare_boundLocals id symbol d
  | bindLocal stamp symbol =>
    rw [apply_lift_snd u rfl, bindLocal, h.locals.bindSymbol_eq_none]
    exact h.locals
  | _ => cases hop

/-- Only the end of a function is an event where there are no locals, and it ends nothing. -/
theorem lifetimes_emit (e : Emission) : (emit e u).2.lifetimes = ∅ := by
  rcases u.emit_cases e with heq | ⟨event, hevent, heq⟩
  · rw [heq, h.lifetimes]
  · rw [heq, h.lifetimes]
    cases e with
    | endFunction function addr =>
      cases hevent
      rfl
    | _ =>
      simp only [event?, scopeOf?, variableOf?, h.config] at hevent
      cases hevent

/-- No operation adds a local or a lifetime. -/
theorem apply (hbases : TypeTable.FindsBases (u.ids, u.types)) (op : Operation σ) :
    WithoutLocals (u.apply op).2 := by
  have hframe := u.apply_frame hbases op
  refine ⟨?_, ?_, ?_⟩
  · rw [tracksLocals, hframe.config]
    exact h.config
  · cases hop : op.changesLocals with
    | false =>
      rw [hframe.locals hop]
      exact h.locals
    | true => exact h.isBare_apply hop
  · cases hop : op.changesLifetimes with
    | false => rw [hframe.lifetimes hop, h.lifetimes]
    | true =>
      cases op with
      | restart => rfl
      | emit e => exact h.lifetimes_emit e
      | _ => cases hop

theorem runFrom (hu : Coherent u) (ops : List (Operation σ)) : WithoutLocals (u.runFrom ops) := by
  induction ops generalizing u with
  | nil => exact h
  | cons op ops ih => exact ih (h.apply hu.bases op) (hu.apply op)

end WithoutLocals

/-! ## Two runs -/

/-- The level of a unit, line tables or everything, does not show outside of types, scopes and
local variables.  After the same operations, units of both levels have the same name, sections,
files, file numbers, labels and printed globals.  The same keys lead to definitions in both, two
keys lead to one definition in both or in neither, and what is found is the same but for ids of
types and the scopes of functions.  And in the unit for line tables there are no local variables,
no scopes and no lifetimes. -/
theorem run_level_invisible (keys : KeyMode) (ops : List (Operation σ)) :
    let u := run { level := .lineTables, keys } ops
    let v := run { level := .full, keys } ops
    (u.name = v.name ∧ u.sections = v.sections ∧ u.labels = v.labels ∧
      u.definitions.printed = v.definitions.printed) ∧
    (∀ k, Option.Rel (Definitions.SameAt u.definitions v.definitions)
      (u.definitions.resolve? k) (v.definitions.resolve? k)) ∧
    (∀ k k', u.definitions.resolve? k = u.definitions.resolve? k' ↔
      v.definitions.resolve? k = v.definitions.resolve? k') ∧
    (∃ symbols, u.locals = { (∅ : Locals) with symbols }) ∧ u.lifetimes = ∅ := by
  intro u v
  have hu : OutputOf _ ops u := run_output _ ops
  have hv : OutputOf _ ops v := run_output _ ops
  obtain ⟨R, h⟩ := run_matches { level := .lineTables, keys } { level := .full, keys } ops
  have hbare : WithoutLocals u :=
    WithoutLocals.runFrom ⟨rfl, ⟨∅, rfl⟩, rfl⟩ (coherent_of_isEmpty (isEmpty_new _)) ops
  refine ⟨⟨?_, ?_, ?_, h.printed⟩, h.sameAt, h.resolve_eq_iff, hbare.locals, hbare.lifetimes⟩
  · rw [hu.name, hv.name]
  · rw [hu.sections, hv.sections]
  · rw [hu.labels, hv.labels]

end CompilationUnit

end DebugInfo
