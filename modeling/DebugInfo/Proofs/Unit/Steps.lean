import DebugInfo.Proofs.Definitions.Changes
import DebugInfo.Proofs.Interning.Run
import DebugInfo.Proofs.Locals.Changes
import DebugInfo.Proofs.Unit.Cases
import DebugInfo.Proofs.Unit.Declarations

/-!
# Operations as steps

Whatever an operation does to a unit, and wherever it fails, it does so in steps that change one
table each.  A restart is the only exception, and it leaves no entry in any table.  So what holds of
a unit without entries and is kept by each step holds after every run.
-/

namespace DebugInfo.CompilationUnit

inductive Step (u : CompilationUnit) : CompilationUnit → Prop where
  | types {ids : IdSupply} {types : TypeTable} (a : TypeTable.Action)
      (h : TypeTable.perform (u.ids, u.types) a = (ids, types)) : Step u { u with ids, types }
  | definitions {ids : IdSupply} {definitions : Definitions}
      (h : Definitions.Change (u.ids, u.definitions) (ids, definitions)) :
      Step u { u with ids, definitions }
  | locals {ids : IdSupply} {locals : Locals}
      (h : Locals.Change (u.ids, u.locals) (ids, locals)) : Step u { u with ids, locals }
  /-- What holds no entries. -/
  | output (lifetimes : Lifetimes) (sections : Sections) (labels : Labels) :
      Step u { u with lifetimes, sections, labels }

abbrev Steps : CompilationUnit → CompilationUnit → Prop := Relation.ReflTransGen Step

variable {u u' : CompilationUnit}

namespace Steps

/-! ## Changes of one table -/

/-- Whatever is done to the table of types is a step. -/
theorem types (a : TypeTable.Action) {ids : IdSupply} {types : TypeTable}
    (h : TypeTable.perform (u.ids, u.types) a = (ids, types)) : Steps u { u with ids, types } :=
  .single (.types a h)

theorem update {id : EntryId} {update : TypeUpdate} {changed : Bool} {types : TypeTable}
    (h : u.types.update id update = .ok (changed, types)) : Steps u { u with types } :=
  .types (.update id update) (by simp only [TypeTable.perform, h])

theorem definitions {ids : IdSupply} {g : Definitions}
    (h : Definitions.Changes (u.ids, u.definitions) (ids, g)) :
    Steps u { u with ids, definitions := g } := by
  -- The induction needs an end of the chain that is a variable.
  have hlift : ∀ s : IdSupply × Definitions, Definitions.Changes (u.ids, u.definitions) s →
      Steps u { u with ids := s.1, definitions := s.2 } := by
    intro s hs
    induction hs with
    | refl => exact .refl
    | tail _ hchange ih => exact .tail ih (.definitions hchange)
  exact hlift _ h

theorem locals {ids : IdSupply} {l : Locals} (h : Locals.Changes (u.ids, u.locals) (ids, l)) :
    Steps u { u with ids, locals := l } := by
  have hlift : ∀ s : IdSupply × Locals, Locals.Changes (u.ids, u.locals) s →
      Steps u { u with ids := s.1, locals := s.2 } := by
    intro s hs
    induction hs with
    | refl => exact .refl
    | tail _ hchange ih => exact .tail ih (.locals hchange)
  exact hlift _ h

theorem output (lifetimes : Lifetimes) (sections : Sections) (labels : Labels) :
    Steps u { u with lifetimes, sections, labels } :=
  .single (.output lifetimes sections labels)

end Steps

/-! ## Operations -/

/-- What has been reached in steps stays so during a declaration. -/
theorem steps_stable (u₀ : CompilationUnit) : Stable (fun _ => True) fun _ => Steps u₀ where
  forget h _ := h
  noteFile h _ := h.trans (Steps.output _ _ _)
  intern h t := h.trans (Steps.types (.intern t) rfl)
  update h _ _ _ _ _ _ hu := h.trans (Steps.update hu)
  recordVariable h _ _ _ _ _ _ _ _ _ ho :=
    h.trans (Steps.definitions (Definitions.changes_declareVariable ho))
  recordPrototype h _ _ _ _ _ _ ho :=
    h.trans (Steps.definitions (Definitions.changes_declarePrototype ho))
  recordFunction h _ _ _ _ _ _ _ ho :=
    h.trans (Steps.definitions (Definitions.changes_defineFunction ho))
  recordLocal h _ _ _ _ _ _ _ _ hl := h.trans (Steps.locals (Locals.changes_declare hl))

section Operations

variable (u₀ u : CompilationUnit)

theorem attach_steps (function stamp : Stamp) (block : Block) :
    Preserves (Steps u₀) (attach function stamp block) := by
  refine Ensures.bind .get fun u => ?_
  split
  · refine .onLocals (fun u b ids l h ho => ?_) fun _ h => h
    obtain ⟨⟨b, l⟩, ho, heq⟩ := Definitions.map_eq_ok_iff.1 ho
    cases heq
    exact h.trans (Steps.locals (Locals.changes_attach ho u.ids))
  · exact .pure fun _ h => h

theorem bindLocal_steps (stamp : Stamp) (symbol : Symbol) :
    Steps u (bindLocal stamp symbol u).2 := by
  unfold bindLocal
  split
  · exact .refl
  · next hl => exact .locals (Locals.changes_bindSymbol hl u.ids)

theorem bindCode_steps (symbol : Symbol) (code : CodeRange) :
    Preserves (Steps u₀) (bindCode symbol code) := by
  refine .changeDefinitions (fun u b g h ho => ?_) fun _ h => h
  exact h.trans (Steps.definitions (Definitions.changes_bindCode ho u.ids))

theorem bindParameter_steps (function param : Stamp) (symbol : Symbol) :
    Preserves (Steps u₀) (bindParameter function param symbol) := by
  refine .changeDefinitions (fun u b g h ho => ?_) fun _ h => h
  exact h.trans (Steps.definitions (Definitions.changes_bindParameter ho u.ids))

/-- To bind a symbol takes steps in the definitions and in the locals. -/
theorem bindSymbol_steps (stamp : Stamp) (symbol : Symbol) :
    Steps u (bindSymbol stamp symbol u).2 := by
  rcases u.bindSymbol_cases stamp symbol with hrun | ⟨id, d, -, hd, hrun⟩
  · rw [hrun]
  · rw [hrun]
    -- The scopes are linked under the stamps of the table before, which has the same stamps.
    have hlocals : Locals.Changes (u.ids, u.locals) (u.ids, u.boundLocals id symbol d) := by
      cases d
      · exact .refl
      · exact Locals.changes_linkSymbolAll u.ids u.locals _ symbol
    have hdefinitions := Definitions.changes_withSymbol hd u.ids symbol
    exact (Steps.locals hlocals).trans (Steps.definitions hdefinitions)

theorem changes_linkedLocals (function : Stamp) (symbol : Option Symbol) :
    Locals.Changes (u.ids, u.locals) (u.ids, u.linkedLocals function symbol) := by
  cases symbol with
  | none => exact .refl
  | some symbol => exact .single (.linkSymbol u.ids u.locals function symbol)

/-- To enter a function takes steps in the locals and in the definitions. -/
theorem enterFunction_steps (function : Stamp) (block : Block) :
    Steps u (enterFunction function block u).2 := by
  rcases u.enterFunction_cases function block with ⟨answer, hrun, -⟩ |
    ⟨id, f, x, ids, l, -, hf, henter, hrun⟩
  · rw [hrun]
  · rw [hrun]
    have hlocals := (u.changes_linkedLocals function f.symbol).trans (Locals.changes_enter henter)
    have hroot := Definitions.change_rootScope hf ids x
    exact (Steps.locals hlocals).trans (Steps.definitions (.single hroot))

theorem enterChild_steps (function : Stamp) (parent block : Block) :
    Steps u (enterChild function parent block u).2 := by
  rcases u.enterChild_cases function parent block with ⟨answer, hrun, -⟩ |
    ⟨parentId, x, children, ids, l, l', -, henter, hchildren, hl', hrun⟩
  · rw [hrun]
  · rw [hrun]
    have hlocals := Locals.changes_enter henter
    rcases hl' with rfl | rfl
    · exact .locals hlocals
    · exact .locals (hlocals.tail (Locals.change_addChild hchildren ids x))

theorem emit_steps (e : Emission) : Steps u (emit e u).2 := by
  rcases u.emit_cases e with heq | ⟨event, -, heq⟩
  · rw [heq]
  · rw [heq]
    exact .output _ _ _

variable {σ : Type}

/-- Every operation but a restart goes in steps, whether it fails or not. -/
theorem apply_steps {op : Operation σ} (hop : ∀ name, op ≠ .restart name) :
    Steps u (u.apply op).2 := by
  have hstable := steps_stable u
  cases op with
  | restart name => exact absurd rfl (hop name)
  | freshId => exact .types .skip rfl
  | internType t => exact .types (.intern t) rfl
  | updateType id update =>
    have hlearns := updateType_learns hstable update.references id (List.Subset.refl _)
      fun _ _ => trivial
    exact (hlearns.answer _).apply .refl
  | declare d => exact ((declare_stable hstable d trivial).answer _).apply .refl
  | declareLocal d => exact ((declareLocal_stable hstable d trivial).answer _).apply .refl
  | enterFunction function block =>
    rw [apply, perform, answer_apply]
    exact u.enterFunction_steps function block
  | enterChild function parent block =>
    rw [apply, perform, answer_apply]
    exact u.enterChild_steps function parent block
  | attach function stamp block => exact ((attach_steps u function stamp block).answer _).apply .refl
  | bindSymbol stamp symbol => exact u.bindSymbol_steps stamp symbol
  | bindLocal stamp symbol => exact u.bindLocal_steps stamp symbol
  | bindCode symbol code => exact ((bindCode_steps u symbol code).answer _).apply .refl
  | bindParameter function param symbol =>
    exact ((bindParameter_steps u function param symbol).answer _).apply .refl
  | emit e => exact u.emit_steps e
  | setSectionStart name start => exact .output _ _ _
  | setSectionStop name stop => exact .output _ _ _
  | enumerate cb start => exact .output _ _ _
  | addLabel function position addr => exact .output _ _ _
  | markPrinted name => exact .definitions (.single (.markPrinted u.ids u.definitions name))

end Operations

/-! ## Runs -/

/-- There are no entries, as in a new unit or after a restart. -/
structure IsEmpty (u : CompilationUnit) : Prop where
  types : u.types = .empty u.types.mode
  definitions : u.definitions = ∅
  locals : u.locals = ∅

theorem isEmpty_new (config : Config) : IsEmpty (new config) := ⟨rfl, rfl, rfl⟩

theorem isEmpty_restart (u : CompilationUnit) (name : String) : IsEmpty (u.restart name) :=
  ⟨rfl, rfl, rfl⟩

section Runs

variable {σ : Type} {P : CompilationUnit → Prop} (hempty : ∀ {u}, IsEmpty u → P u)
  (hstep : ∀ {u u'}, P u → Step u u' → P u')
include hstep

/-- What every step preserves, steps in a row do. -/
theorem steps_induction (hu : P u) (hsteps : Steps u u') : P u' := by
  induction hsteps with
  | refl => exact hu
  | tail _ h ih => exact hstep ih h

include hempty

/-- What every step preserves and an empty unit has, every operation preserves. -/
theorem apply_induction (hu : P u) (op : Operation σ) : P (u.apply op).2 := by
  by_cases hop : ∃ name, op = .restart name
  · obtain ⟨name, rfl⟩ := hop
    exact hempty (u.isEmpty_restart name)
  · exact steps_induction hstep hu (u.apply_steps (not_exists.1 hop))

/-- The same holds for operations in a row. -/
theorem runFrom_induction (hu : P u) (ops : List (Operation σ)) : P (u.runFrom ops) := by
  induction ops generalizing u with
  | nil => exact hu
  | cons op ops ih => exact ih (apply_induction hempty hstep hu op)

/-- What every step preserves and an empty unit has holds after any run. -/
theorem run_induction (config : Config) (ops : List (Operation σ)) : P (run config ops) :=
  runFrom_induction hempty hstep (hempty (isEmpty_new config)) ops

end Runs

end DebugInfo.CompilationUnit
