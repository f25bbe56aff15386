import DebugInfo.Proofs.Symbols.Naming
import DebugInfo.Proofs.Unit.Coherence

/-!
# Symbols along a run

After any run, the symbols of definitions and of local variables are those that the operations of
the run have bound since the last restart.  Prototypes and redefinitions come in between, but they
are about other things.
-/

namespace DebugInfo.CompilationUnit

variable {σ : Type}

/-! ## Calls -/

/-- An operation with its answer. -/
abbrev Call (σ : Type) := Operation σ × Except TableError Answer

/-- The calls so far, the latest first; those before a restart are forgotten. -/
def noteCall (calls : List (Call σ)) : Call σ → List (Call σ)
  | (.restart _, _) => []
  | call => call :: calls

/-- The calls of operations on a unit, after those that there were before. -/
def callsFrom (u : CompilationUnit) (calls : List (Call σ)) : List (Operation σ) → List (Call σ)
  | [] => calls
  | op :: ops => callsFrom (u.apply op).2 (noteCall calls (op, (u.apply op).1)) ops

/-- What a run has called since the unit was last restarted. -/
def calls (config : Config) (ops : List (Operation σ)) : List (Call σ) :=
  callsFrom (new config) [] ops

/-- The binding of a symbol to a definition. -/
def definitionBinding? : Call σ → Option (EntryId × Symbol)
  | (.bindSymbol _ symbol, .ok (.id (some id))) => some (id, symbol)
  | _ => none

/-- The binding of a symbol to a local variable. -/
def localBinding? : Call σ → Option (EntryId × Symbol)
  | (.bindLocal _ symbol, .ok (.id (some id))) => some (id, symbol)
  | _ => none

def definitionBindings (calls : List (Call σ)) : List (EntryId × Symbol) :=
  calls.filterMap definitionBinding?

def localBindings (calls : List (Call σ)) : List (EntryId × Symbol) :=
  calls.filterMap localBinding?

/-! ## One operation -/

/-- In the tables of both units, the same symbols lead to the same entries and are carried by
them. -/
structure SameNaming (u u' : CompilationUnit) : Prop where
  definitions : u'.definitions.naming = u.definitions.naming
  locals : u'.locals.naming = u.locals.naming

namespace SameNaming

variable {u u' u₁ u₂ u₃ : CompilationUnit}

theorem refl (u : CompilationUnit) : SameNaming u u := ⟨rfl, rfl⟩

theorem trans (h : SameNaming u₁ u₂) (h' : SameNaming u₂ u₃) : SameNaming u₁ u₃ :=
  ⟨h'.definitions.trans h.definitions, h'.locals.trans h.locals⟩

end SameNaming

/-- A declaration takes fresh ids for what it adds, and what it adds carries no symbol. -/
theorem sameNaming_stable {u₀ : CompilationUnit} (h₀ : OneIdSpace u₀) :
    Stable (fun _ => True) fun _ u => Steps u₀ u ∧ SameNaming u₀ u := by
  have hsteps := steps_stable u₀
  have hcovers {u : CompilationUnit} (h : Steps u₀ u) (table : Table) :
      u.ids.Covers (u.Holds table) :=
    (h₀.of_moments (h₀.moments_of_steps h)).allocated table
  constructor
  · exact fun h _ => h
  · intro known u h file
    exact ⟨@hsteps.noteFile known u h.1 file, h.2.trans ⟨rfl, rfl⟩⟩
  · intro known u h t
    exact ⟨@hsteps.intern known u h.1 t, h.2.trans ⟨rfl, rfl⟩⟩
  · intro known u h id update changed types hrefs hloc ho
    exact ⟨hsteps.update h.1 hrefs hloc ho, h.2.trans ⟨rfl, rfl⟩⟩
  · intro known u h stamp v defining id ids g htype hloc hsymbol ho
    refine ⟨hsteps.recordVariable h.1 htype hloc hsymbol ho, h.2.trans ⟨?_, rfl⟩⟩
    exact Definitions.naming_declareVariable (hcovers h.1 .definitions) hsymbol ho
  · intro known u h s id ids g hresult hloc ho
    refine ⟨hsteps.recordPrototype h.1 hresult hloc ho, h.2.trans ⟨?_, rfl⟩⟩
    exact Definitions.naming_declarePrototype (hcovers h.1 .definitions) ho
  · intro known u h s params id ids g hrefs hloc ho
    refine ⟨hsteps.recordFunction h.1 hrefs hloc ho, h.2.trans ⟨?_, rfl⟩⟩
    exact Definitions.naming_defineFunction (hcovers h.1 .definitions) ho
  · intro known u h stamp v id ids l htype hloc hsymbol hl
    refine ⟨hsteps.recordLocal h.1 htype hloc hsymbol hl, h.2.trans ⟨rfl, ?_⟩⟩
    exact Locals.naming_declare (hcovers h.1 .locals) hsymbol hl

variable {u : CompilationUnit}

theorem naming_linkedLocals (function : Stamp) (symbol : Option Symbol) :
    (u.linkedLocals function symbol).naming = u.locals.naming := by
  cases symbol with
  | none => rfl
  | some symbol => exact Locals.naming_linkSymbol u.locals function symbol

theorem naming_boundLocals (id : EntryId) (symbol : Symbol) (d : Definition) :
    (u.boundLocals id symbol d).naming = u.locals.naming := by
  obtain v | f := d
  · rfl
  · exact Locals.naming_linkSymbolAll _ symbol u.locals

theorem attach_sameNaming (function stamp : Stamp) (block : Block) :
    Preserves (SameNaming u) (attach function stamp block) := by
  refine Ensures.bind .get fun _ => ?_
  split
  · refine .onLocals (fun u b ids l h ho => ?_) fun _ h => h
    obtain ⟨⟨b, l⟩, ho, heq⟩ := Definitions.map_eq_ok_iff.1 ho
    cases heq
    exact h.trans ⟨rfl, Locals.naming_attach ho⟩
  · exact .pure fun _ h => h

theorem bindCode_sameNaming (symbol : Symbol) (code : CodeRange) :
    Preserves (SameNaming u) (bindCode symbol code) :=
  .changeDefinitions (fun _ _ _ h ho => h.trans ⟨Definitions.naming_bindCode ho, rfl⟩) fun _ h => h

theorem bindParameter_sameNaming (function param : Stamp) (symbol : Symbol) :
    Preserves (SameNaming u) (bindParameter function param symbol) :=
  .changeDefinitions (fun _ _ _ h ho => h.trans ⟨Definitions.naming_bindParameter ho, rfl⟩)
    fun _ h => h

section Entering

variable (h : OneIdSpace u)
include h

theorem enterFunction_sameNaming (function : Stamp) (block : Block) :
    SameNaming u (enterFunction function block u).2 := by
  rcases u.enterFunction_cases function block with ⟨answer, hrun, -⟩ |
    ⟨id, f, x, ids, l, -, hf, henter, hrun⟩
  · rw [hrun]
    exact .refl u
  · rw [hrun]
    -- Links change the indices of scopes only, so there are no new entries among the linked locals.
    have hcovers : u.ids.Covers (u.linkedLocals function f.symbol).entries.Has := by
      cases f.symbol with
      | none => exact h.allocated .locals
      | some symbol =>
        have hlink : Locals.Change (u.ids, u.locals)
            (u.ids, (u.locals.linkSymbol function symbol).2) :=
          .linkSymbol u.ids u.locals function symbol
        exact hlink.draws.covers (h.allocated .locals)
    refine ⟨Definitions.naming_put hf rfl, ?_⟩
    exact (Locals.naming_enter hcovers henter).trans (naming_linkedLocals function f.symbol)

theorem enterChild_sameNaming (function : Stamp) (parent block : Block) :
    SameNaming u (enterChild function parent block u).2 := by
  rcases u.enterChild_cases function parent block with ⟨answer, hrun, -⟩ |
    ⟨parentId, x, children, ids, l, l', -, henter, hchildren, hl', hrun⟩
  · rw [hrun]
    exact .refl u
  · rw [hrun]
    have hentered := Locals.naming_enter (h.allocated .locals) henter
    refine ⟨rfl, ?_⟩
    rcases hl' with rfl | rfl
    · exact hentered
    · exact (Locals.naming_putScope hchildren _).trans hentered

/-- Operations that bind a symbol to a definition or to a local variable, or restart the unit. -/
def Operation.binds : Operation σ → Bool
  | .restart _ | .bindSymbol _ _ | .bindLocal _ _ => true
  | _ => false

/-- An operation that binds nothing leaves all symbols alone. -/
theorem apply_sameNaming {op : Operation σ} (hop : op.binds = false) :
    SameNaming u (u.apply op).2 := by
  have hstable := sameNaming_stable h
  cases op with
  | freshId | internType | setSectionStart | setSectionStop | enumerate | addLabel | markPrinted =>
    exact ⟨rfl, rfl⟩
  | updateType id update =>
    have hlearns := updateType_learns hstable update.references id (List.Subset.refl _)
      fun _ _ => trivial
    exact ((hlearns.answer _).apply ⟨.refl, .refl u⟩).2
  | declare d => exact (((declare_stable hstable d trivial).answer _).apply ⟨.refl, .refl u⟩).2
  | declareLocal d =>
    exact (((declareLocal_stable hstable d trivial).answer _).apply ⟨.refl, .refl u⟩).2
  | enterFunction function block =>
    rw [apply, perform, answer_apply]
    exact enterFunction_sameNaming h function block
  | enterChild function parent block =>
    rw [apply, perform, answer_apply]
    exact enterChild_sameNaming h function parent block
  | attach function stamp block =>
    exact ((attach_sameNaming function stamp block).answer _).apply (.refl u)
  | bindCode symbol code => exact ((bindCode_sameNaming symbol code).answer _).apply (.refl u)
  | bindParameter function param symbol =>
    exact ((bindParameter_sameNaming function param symbol).answer _).apply (.refl u)
  | emit e =>
    rcases u.emit_cases e with heq | ⟨event, -, heq⟩
    · have happly : (u.apply (.emit e : Operation σ)).2 = u := heq
      rw [happly]
      exact .refl u
    · have happly : (u.apply (.emit e : Operation σ)).2 =
          { u with lifetimes := u.lifetimes.apply event } := heq
      rw [happly]
      exact ⟨rfl, rfl⟩
  | _ => cases hop

end Entering

/-! ## Runs -/

/-- The symbols in the tables are those that were bound by the calls. -/
structure Follows (calls : List (Call σ)) (u : CompilationUnit) : Prop where
  definitions : u.definitions.naming = .of (definitionBindings calls)
  locals : u.locals.naming = .of (localBindings calls)

/-- Without any calls nothing is bound. -/
theorem follows_of_isEmpty (h : IsEmpty u) : Follows ([] : List (Call σ)) u := by
  refine ⟨?_, ?_⟩
  · rw [h.definitions]
    exact Definitions.naming_empty
  · rw [h.locals]
    exact Locals.naming_empty

section Follows

variable {calls : List (Call σ)} (h : Follows calls u)
include h

/-- A call that binds nothing. -/
theorem Follows.of_sameNaming {u' : CompilationUnit} (hsame : SameNaming u u') {call : Call σ}
    (hdefinition : definitionBinding? call = none) (hlocal : localBinding? call = none) :
    Follows (call :: calls) u' := by
  have hdefinitions : definitionBindings (call :: calls) = definitionBindings calls :=
    List.filterMap_cons_none hdefinition
  have hlocals : localBindings (call :: calls) = localBindings calls :=
    List.filterMap_cons_none hlocal
  constructor
  · rw [hsame.definitions, h.definitions, hdefinitions]
  · rw [hsame.locals, h.locals, hlocals]

/-- The bindings of the definitions are those of the calls, with one more if a symbol is bound. -/
theorem Follows.bindSymbol (stamp : Stamp) (symbol : Symbol) :
    let op : Operation σ := .bindSymbol stamp symbol
    Follows ((op, (u.apply op).1) :: calls) (u.apply op).2 := by
  intro op
  rcases u.bindSymbol_cases stamp symbol with hrun | ⟨id, d, -, -, hrun⟩
  · rw [apply_of_lift rfl hrun]
    exact h.of_sameNaming (.refl u) rfl rfl
  · rw [apply_of_lift rfl hrun]
    constructor
    · rw [Definitions.naming_withSymbol, h.definitions]
      rfl
    · rw [naming_boundLocals, h.locals]
      rfl

/-- The bindings of the locals are those of the calls, with one more if a symbol is bound. -/
theorem Follows.bindLocal (stamp : Stamp) (symbol : Symbol) :
    let op : Operation σ := .bindLocal stamp symbol
    Follows ((op, (u.apply op).1) :: calls) (u.apply op).2 := by
  intro op
  cases hbind : u.locals.bindSymbol stamp symbol with
  | none =>
    have hrun : CompilationUnit.bindLocal stamp symbol u = (none, u) := by
      rw [CompilationUnit.bindLocal, hbind]
    rw [apply_of_lift rfl hrun]
    exact h.of_sameNaming (.refl u) rfl rfl
  | some r =>
    have hrun : CompilationUnit.bindLocal stamp symbol u =
        (some r.1, { u with locals := r.2 }) := by
      rw [CompilationUnit.bindLocal, hbind]
    rw [apply_of_lift rfl hrun]
    constructor
    · rw [h.definitions]
      rfl
    · rw [Locals.naming_bindSymbol hbind, h.locals]
      rfl

/-- The symbols follow from the calls after one more of them. -/
theorem Follows.apply (hspace : OneIdSpace u) (op : Operation σ) :
    Follows (noteCall calls (op, (u.apply op).1)) (u.apply op).2 := by
  cases hop : op.binds with
  | true =>
    cases op with
    | restart name => exact follows_of_isEmpty (u.isEmpty_restart name)
    | bindSymbol stamp symbol => exact h.bindSymbol stamp symbol
    | bindLocal stamp symbol => exact h.bindLocal stamp symbol
    | _ => cases hop
  | false =>
    have hsame := apply_sameNaming hspace hop
    cases op <;> first | exact h.of_sameNaming hsame rfl rfl | cases hop

end Follows

theorem Follows.runFrom {calls : List (Call σ)} (h : Follows calls u) (hu : Coherent u)
    (ops : List (Operation σ)) : Follows (callsFrom u calls ops) (u.runFrom ops) := by
  induction ops generalizing u calls with
  | nil => exact h
  | cons op ops ih => exact ih (h.apply hu.orderly.space op) (hu.apply op)

/-- After any run the symbols follow from the calls. -/
theorem run_follows (config : Config) (ops : List (Operation σ)) :
    Follows (calls config ops) (run config ops) :=
  (follows_of_isEmpty (isEmpty_new config)).runFrom (coherent_of_isEmpty (isEmpty_new config)) ops

/-- After any run in which, since the last restart, symbols and definitions were bound one to one: a
symbol leads to a definition if and only if the definition carries the symbol.  The same holds of
local variables, if symbols were bound to them one to one. -/
theorem run_symbols_inverse (config : Config) (ops : List (Operation σ)) :
    let u := run config ops
    (OneToOne (definitionBindings (calls config ops)) → ∀ symbol id,
      u.definitions.idBySymbol? symbol = some id ↔
        ∃ d, u.definitions.get? id = some d ∧ d.symbol = some symbol) ∧
    (OneToOne (localBindings (calls config ops)) → ∀ symbol id,
      u.locals.idBySymbol? symbol = some id ↔
        ∃ v, u.locals.get? id = some (.variable v) ∧ v.symbol = some symbol) := by
  intro u
  have hfollows : Follows (calls config ops) u := run_follows config ops
  constructor
  · intro h symbol id
    have hiff := Naming.idOf?_of_iff_symbolOf? h id symbol
    rw [← hfollows.definitions] at hiff
    exact hiff.trans Option.bind_eq_some_iff
  · intro h symbol id
    have hiff := Naming.idOf?_of_iff_symbolOf? h id symbol
    rw [← hfollows.locals] at hiff
    exact hiff.trans Locals.symbolOf?_naming_eq_some_iff

/-- The symbol is bound to a prototype, and the function is defined afterwards under another
stamp. -/
theorem run_symbols_inverse_redefined :
    let call : PrototypeDecl :=
      { name := ⟨7⟩, stamp := ⟨1⟩, storage := .external, type := .base [] .void,
        loc := ⟨⟨1⟩, 3, 1⟩ }
    let body : FunctionDecl :=
      { name := ⟨7⟩, stamp := ⟨2⟩, storage := .external, result := .base [] .void, params := [],
        variadic := false, loc := ⟨⟨1⟩, 9, 1⟩ }
    let counter : LocalDecl :=
      { name := ⟨8⟩, stamp := ⟨3⟩, storage := .auto, type := .base [] (.integer .int),
        loc := ⟨⟨1⟩, 10, 3⟩ }
    let ops : List (Operation Unit) :=
      [.declare (.prototype call), .bindSymbol ⟨1⟩ ⟨4⟩, .declare (.function body),
        .declareLocal counter, .bindLocal ⟨3⟩ ⟨9⟩]
    let u := run {} ops
    OneToOne (definitionBindings (calls {} ops)) ∧ OneToOne (localBindings (calls {} ops)) ∧
      (∃ d, u.definitions.get? ⟨0⟩ = some d ∧ d.symbol = some ⟨4⟩) ∧
      ∃ v, u.locals.get? ⟨2⟩ = some (.variable v) ∧ v.symbol = some ⟨9⟩ := by
  intro call body counter ops u
  have hdefinitions : definitionBindings (calls {} ops) = [(⟨0⟩, ⟨4⟩)] := by
    decide +kernel
  have hlocals : localBindings (calls {} ops) = [(⟨2⟩, ⟨9⟩)] := by
    decide +kernel
  have hd : OneToOne (definitionBindings (calls {} ops)) := by
    rw [hdefinitions]
    constructor <;> grind
  have hl : OneToOne (localBindings (calls {} ops)) := by
    rw [hlocals]
    constructor <;> grind
  have hsymbol : u.definitions.idBySymbol? ⟨4⟩ = some ⟨0⟩ := by
    decide +kernel
  have hlocal : u.locals.idBySymbol? ⟨9⟩ = some ⟨2⟩ := by
    decide +kernel
  obtain ⟨hbound, hbound'⟩ := run_symbols_inverse {} ops
  exact ⟨hd, hl, (hbound hd ⟨4⟩ ⟨0⟩).1 hsymbol, (hbound' hl ⟨9⟩ ⟨2⟩).1 hlocal⟩

end DebugInfo.CompilationUnit
