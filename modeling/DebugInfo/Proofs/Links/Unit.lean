import DebugInfo.Proofs.Definitions.Grounded
import DebugInfo.Proofs.Lifetimes.Keys
import DebugInfo.Proofs.Links.Locals
import DebugInfo.Proofs.Links.Types
import DebugInfo.Proofs.Unit.Cases

/-!
# Ids between the tables of a unit

A unit is `Linked` if the ids in each of its tables lead to entries of the right kind, in whatever
table these are.  Each table grows by itself and keeps what the others refer to: types stay types,
scopes stay scopes, and variables stay variables.  So a change of one table is a matter of that
table and of the ids that are new in it.
-/

namespace DebugInfo

/-- The ids of types in a definition. -/
def Definition.types : Definition → List EntryId
  | .variable v => [v.type]
  | .function f => f.result.toList ++ f.params.map (·.type)

def Definition.rootScope : Definition → Option EntryId
  | .variable _ => none
  | .function f => f.rootScope

@[simp] theorem Definition.types_withSymbol (symbol : Symbol) (d : Definition) :
    (d.withSymbol symbol).types = d.types := by
  cases d <;> rfl

@[simp] theorem Definition.rootScope_withSymbol (symbol : Symbol) (d : Definition) :
    (d.withSymbol symbol).rootScope = d.rootScope := by
  cases d <;> rfl

/-- The ids in a definition are those of types and of a scope. -/
structure Definition.Linked (has isScope : EntryId → Prop) (d : Definition) : Prop where
  types : ∀ t ∈ d.types, has t
  rootScope : ∀ x, d.rootScope = some x → isScope x

/-- More types and scopes may be there. -/
theorem Definition.Linked.mono {has has' isScope isScope' : EntryId → Prop} {d : Definition}
    (h : Linked has isScope d) (hhas : ∀ t, has t → has' t)
    (hscope : ∀ x, isScope x → isScope' x) : Linked has' isScope' d :=
  ⟨fun t ht => hhas t (h.types t ht), fun x hx => hscope x (h.rootScope x hx)⟩

theorem Definition.Linked.of_eq {has isScope : EntryId → Prop} {d d' : Definition}
    (h : Linked has isScope d) (htypes : d'.types = d.types)
    (hroot : d'.rootScope = d.rootScope) : Linked has isScope d' :=
  ⟨by rw [htypes]; exact h.types, by rw [hroot]; exact h.rootScope⟩

namespace CompilationUnit

open Definitions (Grounded)

structure Linked (u : CompilationUnit) : Prop where
  types : TypeTable.Closed (u.ids, u.types)
  grounded : Grounded u.ids u.definitions
  definitions : ∀ id d, u.definitions.get? id = some d → d.Linked u.types.Has u.locals.IsScope
  locals : Locals.Linked u.types.Has u.ids u.locals
  spans : ∀ x spans, u.lifetimes.spans[x]? = some spans → u.locals.IsScope x
  storages : ∀ x st, u.lifetimes.storage? x = some st → u.locals.IsVariable x

namespace Linked

variable {u : CompilationUnit} {ids : IdSupply} (h : Linked u)
include h

/-! ## Changing one table -/

/-- Nothing dangles after the table of types is extended. -/
theorem withTypes {types : TypeTable} (hclosed : TypeTable.Closed (ids, types))
    (hextends : u.types.Extends types) (hids : u.ids.allocated ≤ ids.allocated) :
    Linked { u with ids, types } where
  types := hclosed
  grounded := h.grounded.mono hids
  definitions id d hd := (h.definitions id d hd).mono (fun _ ht => hextends.has ht) fun _ hx => hx
  locals := h.locals.mono (fun _ ht => hextends.has ht) hids
  spans := h.spans
  storages := h.storages

/-- Nothing dangles if each definition is linked. -/
theorem withDefinitions {g : Definitions} (hids : u.ids.allocated ≤ ids.allocated)
    (hgrounded : Grounded ids g)
    (hdefinitions : ∀ id d, g.get? id = some d → d.Linked u.types.Has u.locals.IsScope) :
    Linked { u with ids, definitions := g } where
  types := h.types.mono hids
  grounded := hgrounded
  definitions := hdefinitions
  locals := h.locals.mono (fun _ ht => ht) hids
  spans := h.spans
  storages := h.storages

/-- Nothing dangles after a change to the locals that goes on from these. -/
theorem withLocals {l : Locals} (hl : Locals.Continues u.types.Has u.ids u.locals ids l) :
    Linked { u with ids, locals := l } where
  types := h.types.mono hl.allocated
  grounded := h.grounded.mono hl.allocated
  definitions id d hd := (h.definitions id d hd).mono (fun _ ht => ht) hl.kinds.scopes
  locals := hl.linked
  spans x spans hx := hl.kinds.scopes x (h.spans x spans hx)
  storages x st hx := hl.kinds.vars x (h.storages x st hx)

/-- An entry of the definitions is replaced, or a new one comes in. -/
theorem put {id : EntryId} {d : Definition} (hd : d.Linked u.types.Has u.locals.IsScope) :
    ∀ id' d', (u.definitions.put id d).get? id' = some d' → d'.Linked u.types.Has u.locals.IsScope := by
  intro id' d' hd'
  rw [Definitions.get?_put] at hd'
  split at hd'
  · cases hd'
    exact hd
  · exact h.definitions id' d' hd'

/-- A definition is changed, but not the ids in it. -/
theorem replace {id : EntryId} {d d' : Definition} (hd : u.definitions.get? id = some d)
    (hkind : d'.isFunction = d.isFunction) (htypes : d'.types = d.types)
    (hroot : d'.rootScope = d.rootScope) :
    Linked { u with definitions := u.definitions.put id d' } := by
  have hdefinition := (h.definitions id d hd).of_eq htypes hroot
  exact h.withDefinitions (Nat.le_refl _) (h.grounded.put hd hkind) (h.put hdefinition)

/-! ## Interning -/

/-- Nothing dangles after a type is interned, and the id that is answered is there. -/
theorem internType (t : TypeExpr Attr) :
    Linked (internType t u).2 ∧ u.types.Extends (internType t u).2.types ∧
      (internType t u).2.types.Has (internType t u).1 := by
  obtain ⟨hclosed, hextends, hids, hhas⟩ := h.types.intern t
  exact ⟨h.withTypes hclosed hextends hids, hextends, hhas⟩

/-! ## Definitions -/

/-- Nothing dangles after a variable is declared. -/
theorem declareVariable {stamp : Stamp} {v : Variable} {defining : Bool} {id : EntryId}
    {g : Definitions} (hv : u.types.Has v.type)
    (ho : u.definitions.declareVariable u.ids stamp v defining = .ok (id, ids, g)) :
    Linked { u with ids, definitions := g } := by
  have hgrounded := (h.grounded.declareVariable ho).1
  rcases Definitions.declareVariable_cases ho with ⟨-, rfl, rfl, rfl⟩ | ⟨-, rfl, old, hold, rfl⟩
  · refine h.withDefinitions (Nat.le_succ _) hgrounded (h.put ⟨?_, fun x hx => nomatch hx⟩)
    simpa [Definition.types] using hv
  · exact h.replace hold rfl rfl rfl

theorem declarePrototype {s : Signature} {id : EntryId} {g : Definitions}
    (hresult : ∀ t ∈ s.result.toList, u.types.Has t)
    (ho : u.definitions.declarePrototype u.ids s = .ok (id, ids, g)) :
    Linked { u with ids, definitions := g } := by
  have hgrounded := (h.grounded.declarePrototype ho).1
  rcases Definitions.declarePrototype_cases ho with ⟨-, rfl, rfl, rfl⟩ | ⟨-, rfl, -, rfl⟩
  · refine h.withDefinitions (Nat.le_succ _) hgrounded (h.put ⟨?_, fun x hx => nomatch hx⟩)
    simpa [Definition.types, Signature.declared] using hresult
  · exact h.withDefinitions (Nat.le_refl _) hgrounded h.definitions

theorem defineFunction {s : Signature} {params : List Parameter} {id : EntryId} {g : Definitions}
    (htypes : ∀ t ∈ s.result.toList ++ params.map (·.type), u.types.Has t)
    (ho : u.definitions.defineFunction u.ids s params = .ok (id, ids, g)) :
    Linked { u with ids, definitions := g } := by
  have hgrounded := (h.grounded.defineFunction ho).1
  rcases Definitions.defineFunction_cases ho with ⟨-, rfl, rfl, rfl⟩ | ⟨-, rfl, old, hold, rfl⟩
  · exact h.withDefinitions (Nat.le_succ _) hgrounded (h.put ⟨htypes, fun x hx => nomatch hx⟩)
  · have hroot := (h.definitions id _ hold).rootScope
    exact h.withDefinitions (Nat.le_refl _) hgrounded (h.put ⟨htypes, hroot⟩)

theorem bindCode {symbol : Symbol} {code : CodeRange} {b : Bool} {g : Definitions}
    (ho : u.definitions.bindCode symbol code = .ok (b, g)) :
    Linked { u with definitions := g } := by
  rcases Definitions.bindCode_cases ho with rfl | ⟨id, f, hf, rfl⟩
  · exact h
  · exact h.replace hf rfl rfl rfl

theorem bindParameter {function param : Stamp} {symbol : Symbol} {b : Bool} {g : Definitions}
    (ho : u.definitions.bindParameter function param symbol = .ok (b, g)) :
    Linked { u with definitions := g } := by
  rcases Definitions.bindParameter_cases ho with rfl | ⟨id, f, hf, rfl⟩
  · exact h
  · have hparams : (updateFirst (·.stamp == param) (fun p => { p with symbol := some symbol })
        f.params).map (·.type) = f.params.map (·.type) := by
      refine map_updateFirst ?_ f.params
      exact fun _ => rfl
    exact h.replace hf rfl (congrArg (f.result.toList ++ ·) hparams) rfl

/-! ## Scopes -/

/-- The locals go on from those before when a symbol is bound. -/
theorem boundLocals (id : EntryId) (symbol : Symbol) (d : Definition) :
    Locals.Continues u.types.Has u.ids u.locals u.ids (u.boundLocals id symbol d) := by
  cases d
  · exact h.locals.continues
  · exact h.locals.linkSymbolAll _ symbol

theorem linkedLocals (function : Stamp) (symbol : Option Symbol) :
    Locals.Continues u.types.Has u.ids u.locals u.ids (u.linkedLocals function symbol) := by
  cases symbol with
  | none => exact h.locals.continues
  | some symbol => exact h.locals.linkSymbol function symbol

/-- Nothing dangles after a symbol is bound. -/
theorem bindSymbol (stamp : Stamp) (symbol : Symbol) : Linked (bindSymbol stamp symbol u).2 := by
  rcases u.bindSymbol_cases stamp symbol with hrun | ⟨id, d, -, hd, hrun⟩
  · rw [hrun]
    exact h
  · rw [hrun]
    have hdefinition : (d.withSymbol symbol).Linked u.types.Has u.locals.IsScope :=
      (h.definitions id d hd).of_eq (by simp) (by simp)
    have hdefinitions :=
      h.withDefinitions (Nat.le_refl _) (h.grounded.withSymbol hd symbol) (h.put hdefinition)
    exact hdefinitions.withLocals (h.boundLocals id symbol d)

theorem enterFunction (function : Stamp) (block : Block) :
    Linked (enterFunction function block u).2 := by
  rcases u.enterFunction_cases function block with ⟨answer, hrun, -⟩ |
    ⟨id, f, x, ids, l, hid, hf, henter, hrun⟩
  · rw [hrun]
    exact h
  · rw [hrun]
    have hlink := h.linkedLocals function f.symbol
    obtain ⟨hl, hx⟩ := hlink.linked.enter henter
    have hlocals := h.withLocals (hlink.trans hl)
    refine hlocals.withDefinitions (Nat.le_refl _) (hlocals.grounded.put hf rfl) ?_
    refine hlocals.put ⟨(hlocals.definitions id _ hf).types, fun y hy => ?_⟩
    cases hy
    exact hx

theorem enterChild (function : Stamp) (parent block : Block) :
    Linked (enterChild function parent block u).2 := by
  rcases u.enterChild_cases function parent block with ⟨answer, hrun, -⟩ |
    ⟨parentId, x, children, ids, l, l', hparent, henter, hchildren, hl', hrun⟩
  · rw [hrun]
    exact h
  · rw [hrun]
    obtain ⟨hl, y, hy⟩ := h.locals.enter henter
    rcases hl' with rfl | rfl
    · exact h.withLocals hl
    · exact h.withLocals (hl.trans (hl.linked.addChild hchildren ⟨_, hy⟩))

/-! ## Emission -/

/-- What is found for a block is a scope. -/
theorem isScope_of_scopeOf? {function : Symbol} {block : Block} {x : EntryId}
    (hx : u.scopeOf? function block = some x) : u.locals.IsScope x := by
  unfold scopeOf? at hx
  split at hx
  · exact h.locals.scopesBySymbol function block x hx
  · cases hx

theorem isVariable_of_variableOf? {var : Symbol} {x : EntryId} (hx : u.variableOf? var = some x) :
    u.locals.IsVariable x := by
  unfold variableOf? at hx
  split at hx
  · exact h.locals.variablesBySymbol var x hx
  · cases hx

/-- The scope that an emission is about is one. -/
theorem isScope_of_event? {e : Emission} {event : Lifetimes.Event} {x : EntryId}
    (hevent : u.event? e = some event) (hx : event.scopeId? = some x) : u.locals.IsScope x := by
  cases e with
  | openScope function block addr | closeScope function block addr =>
    obtain ⟨y, hy, rfl⟩ := Option.map_eq_some_iff.1 hevent
    cases hx
    exact h.isScope_of_scopeOf? hy
  | startRange var _ _ | endRange var _ | setFixed var _ _ =>
    obtain ⟨y, -, rfl⟩ := Option.map_eq_some_iff.1 hevent
    cases hx
  | endFunction function addr =>
    cases hevent
    cases hx

theorem isVariable_of_event? {e : Emission} {event : Lifetimes.Event} {x : EntryId}
    (hevent : u.event? e = some event) (hx : event.variableId? = some x) :
    u.locals.IsVariable x := by
  cases e with
  | startRange var _ _ | endRange var _ | setFixed var _ _ =>
    obtain ⟨y, hy, rfl⟩ := Option.map_eq_some_iff.1 hevent
    cases hx
    exact h.isVariable_of_variableOf? hy
  | openScope function block addr | closeScope function block addr =>
    obtain ⟨y, -, rfl⟩ := Option.map_eq_some_iff.1 hevent
    cases hx
  | endFunction function addr =>
    cases hevent
    cases hx

/-- What an event is about was looked up. -/
theorem emit (e : Emission) : Linked (emit e u).2 := by
  rcases u.emit_cases e with heq | ⟨event, hevent, heq⟩
  · rwa [heq]
  · rw [heq]
    refine { h with spans := fun x spans hx => ?_, storages := fun x st hx => ?_ }
    · rcases Lifetimes.exists_of_spans_apply hx with ⟨spans', hx⟩ | hx
      · exact h.spans x spans' hx
      · exact h.isScope_of_event? hevent hx
    · rcases Lifetimes.exists_of_storage?_apply hx with ⟨st', hx⟩ | hx
      · exact h.storages x st' hx
      · exact h.isVariable_of_event? hevent hx

end Linked

end CompilationUnit

end DebugInfo
