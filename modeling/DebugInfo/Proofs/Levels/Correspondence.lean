import Mathlib.Logic.Relator
import DebugInfo.Proofs.Definitions.Cases
import DebugInfo.Proofs.IdSpace.Supply

/-!
# Tables of the same definitions

Two tables may hold the same definitions under other ids, with other ids for their types and with
or without the scopes of their functions.  Then the ids correspond one to one: each stamp, name
and symbol leads to corresponding ids in both, and what is there is the same but for the types and
scopes.

An operation done on both tables, with what may differ, keeps this, and fails for both or for
neither.  Where it adds a definition to both, the two new ids correspond from then on.
-/

namespace DebugInfo

/-- A change of the first match, before or after a function that respects both. -/
theorem map_updateFirst_comm {α β : Type} (p : β → Bool) {f : α → α} {f' : β → β} {g : α → β}
    (h : ∀ a, g (f a) = f' (g a)) (as : List α) :
    (updateFirst (fun a => p (g a)) f as).map g = updateFirst p f' (as.map g) := by
  induction as with
  | nil => rfl
  | cons a as ih =>
    simp only [updateFirst, List.map_cons]
    split
    · rw [List.map_cons, h]
    · rw [List.map_cons, ih]

/-! ## Definitions without types and scopes -/

def Variable.untyped (v : Variable) : Variable := { v with type := ⟨0⟩ }

def Parameter.untyped (p : Parameter) : Parameter := { p with type := ⟨0⟩ }

/-- What is left is whether there is a result. -/
def Function.untyped (f : Function) : Function :=
  { f with
    result := f.result.map fun _ => ⟨0⟩
    params := f.params.map (·.untyped)
    rootScope := none }

def Definition.untyped : Definition → Definition
  | .variable v => .variable v.untyped
  | .function f => .function f.untyped

def Signature.untyped (s : Signature) : Signature := { s with result := s.result.map fun _ => ⟨0⟩ }

/-- A symbol may be written before or after the types are left out. -/
theorem Definition.untyped_withSymbol (symbol : Symbol) (d : Definition) :
    (d.withSymbol symbol).untyped = d.untyped.withSymbol symbol := by
  cases d <;> rfl

/-- The stamp and the name are left when types are left out. -/
theorem Signature.keys_eq {s s' : Signature} (h : s.untyped = s'.untyped) :
    s.stamp = s'.stamp ∧ s.name = s'.name := by
  have hstamp : s.untyped.stamp = s'.untyped.stamp := by rw [h]
  have hname : s.untyped.name = s'.untyped.name := by rw [h]
  exact ⟨hstamp, hname⟩

/-- The symbol of a parameter may be written before or after the types are left out. -/
theorem Function.untyped_bindParameter (param : Stamp) (symbol : Symbol) (f : Function) :
    let bind (f : Function) : Function :=
      { f with
        params := updateFirst (·.stamp == param) (fun p => { p with symbol := some symbol })
          f.params }
    (bind f).untyped = bind f.untyped := by
  let bound (p : Parameter) : Parameter := { p with symbol := some symbol }
  have hbound (p : Parameter) : (bound p).untyped = bound p.untyped := rfl
  have hparams := map_updateFirst_comm (·.stamp == param) hbound f.params
  exact congrArg (fun params => { f.untyped with params }) hparams

theorem Signature.untyped_defined (s : Signature) (params : List Parameter) :
    (s.defined params).untyped = s.untyped.defined (params.map (·.untyped)) := rfl

theorem untyped_redefined (s : Signature) (params : List Parameter) (old : Function) :
    (Definitions.redefined s params old).untyped =
      Definitions.redefined s.untyped (params.map (·.untyped)) old.untyped := rfl

namespace Definitions

/-! ## Keys -/

/-- What a definition is looked up by. -/
inductive Key where
  | stamp (stamp : Stamp)
  | name (name : Name)
  | symbol (symbol : Symbol)
deriving DecidableEq, Repr

def resolve? (g : Definitions) : Key → Option EntryId
  | .stamp stamp => g.idByStamp? stamp
  | .name name => g.idByName? name
  | .symbol symbol => g.idBySymbol? symbol

/-- Let a key lead to a definition. -/
def addKey (g : Definitions) : Key → EntryId → Definitions
  | .stamp stamp, id => g.addStamp stamp id
  | .name name, id => g.addName name id
  | .symbol symbol, id => g.addSymbol symbol id

/-- A key that has been added leads to its id, and the others lead where they led. -/
theorem resolve?_addKey (g : Definitions) (k k' : Key) (id : EntryId) :
    (g.addKey k id).resolve? k' = if k = k' then some id else g.resolve? k' := by
  cases k <;> cases k' <;>
    simp only [addKey, resolve?, idByStamp?_addStamp, idByName?_addName, idBySymbol?_addSymbol,
      Key.stamp.injEq, Key.name.injEq, Key.symbol.injEq, reduceCtorEq, if_false] <;> rfl

@[simp] theorem get?_addKey (g : Definitions) (k : Key) (id : EntryId) :
    (g.addKey k id).get? = g.get? := by
  cases k <;> rfl

@[simp] theorem printed_addKey (g : Definitions) (k : Key) (id : EntryId) :
    (g.addKey k id).printed = g.printed := by
  cases k <;> rfl

/-- To put an entry changes no key. -/
@[simp] theorem resolve?_put (g : Definitions) (id : EntryId) (d : Definition) :
    (g.put id d).resolve? = g.resolve? := by
  funext k
  cases k <;> rfl

/-! ## Correspondence -/

/-- The same is stored under both ids, but for types and scopes. -/
def SameAt (g g' : Definitions) (a b : EntryId) : Prop :=
  ∃ d d', g.get? a = some d ∧ g'.get? b = some d' ∧ d.untyped = d'.untyped

structure Corresponds (R : EntryId → EntryId → Prop) (g g' : Definitions) : Prop where
  unique : Relator.BiUnique R
  entries : ∀ a b, R a b → SameAt g g' a b
  resolve : ∀ k, Option.Rel R (g.resolve? k) (g'.resolve? k)
  printed : g.printed = g'.printed

/-- The same definitions are in both tables. -/
def Matches (g g' : Definitions) : Prop := ∃ R, Corresponds R g g'

variable {R : EntryId → EntryId → Prop} {g g' : Definitions} {a b : EntryId} {ids ids' : IdSupply}
  {d d' : Definition}

theorem optionRel_cases {x y : Option EntryId} (h : Option.Rel R x y) :
    (x = none ∧ y = none) ∨ ∃ a b, x = some a ∧ y = some b ∧ R a b := by
  cases h with
  | none => exact .inl ⟨rfl, rfl⟩
  | some h => exact .inr ⟨_, _, rfl, rfl, h⟩

theorem corresponds_empty : Corresponds (fun _ _ => False) ∅ ∅ where
  unique := ⟨fun _ _ _ h => h.elim, fun _ _ _ h => h.elim⟩
  entries _ _ h := h.elim
  resolve k := by
    have hnone : (∅ : Definitions).resolve? k = none := by
      cases k <;> simp [resolve?]
    rw [hnone]
    exact .none
  printed := rfl

namespace Corresponds

variable (h : Corresponds R g g')
include h

/-- What corresponds one way corresponds the other way. -/
theorem flip : Corresponds (flip R) g' g where
  unique := ⟨fun _ _ _ hx hy => h.unique.2 hx hy, fun _ _ _ hx hy => h.unique.1 hx hy⟩
  entries b a hR := by
    obtain ⟨d, d', hd, hd', heq⟩ := h.entries a b hR
    exact ⟨d', d, hd', hd, heq.symm⟩
  resolve k := by
    rcases optionRel_cases (h.resolve k) with ⟨hk, hk'⟩ | ⟨a, b, hk, hk', hR⟩
    · rw [hk, hk']
      exact .none
    · rw [hk, hk']
      exact .some hR
  printed := h.printed.symm

/-- What a key leads to is the same in both tables. -/
theorem sameAt (k : Key) : Option.Rel (SameAt g g') (g.resolve? k) (g'.resolve? k) := by
  rcases optionRel_cases (h.resolve k) with ⟨hk, hk'⟩ | ⟨a, b, hk, hk', hR⟩
  · rw [hk, hk']
    exact .none
  · rw [hk, hk']
    exact .some (h.entries a b hR)

/-- Two keys of one definition are keys of one definition in the other table as well. -/
theorem resolve_eq_iff (k k' : Key) :
    g.resolve? k = g.resolve? k' ↔ g'.resolve? k = g'.resolve? k' := by
  rcases optionRel_cases (h.resolve k) with ⟨hk, hk'⟩ | ⟨a, b, hk, hk', hR⟩ <;>
    rcases optionRel_cases (h.resolve k') with ⟨hl, hl'⟩ | ⟨c, d, hl, hl', hS⟩ <;>
      rw [hk, hk', hl, hl']
  · exact iff_of_false (by simp) (by simp)
  · exact iff_of_false (by simp) (by simp)
  · rw [Option.some.injEq, Option.some.injEq]
    constructor
    · rintro rfl
      exact h.unique.2 hR hS
    · rintro rfl
      exact h.unique.1 hR hS

/-! ### Single changes -/

/-- Entries that correspond may be put in corresponding places. -/
theorem put (hR : R a b) (heq : d.untyped = d'.untyped) :
    Corresponds R (g.put a d) (g'.put b d') where
  unique := h.unique
  entries x y hxy := by
    have hiff : a = x ↔ b = y := by
      constructor
      · rintro rfl
        exact h.unique.2 hR hxy
      · rintro rfl
        exact h.unique.1 hR hxy
    simp only [SameAt, get?_put]
    by_cases hx : a = x
    · rw [if_pos hx, if_pos (hiff.1 hx)]
      exact ⟨d, d', rfl, rfl, heq⟩
    · rw [if_neg hx, if_neg (hx ∘ hiff.2)]
      exact h.entries x y hxy
  resolve := by
    rw [resolve?_put, resolve?_put]
    exact h.resolve
  printed := h.printed

/-- What is not looked at may be changed in one table only. -/
theorem put_left (hd : g.get? a = some d) (heq : d'.untyped = d.untyped) :
    Corresponds R (g.put a d') g' where
  unique := h.unique
  entries x y hxy := by
    obtain ⟨e, e', he, he', hsame⟩ := h.entries x y hxy
    simp only [SameAt, get?_put]
    split
    · next hx =>
      subst hx
      cases hd.symm.trans he
      exact ⟨d', e', rfl, he', heq.trans hsame⟩
    · exact ⟨e, e', he, he', hsame⟩
  resolve := by
    rw [resolve?_put]
    exact h.resolve
  printed := h.printed

/-- The same key may be added for ids that correspond. -/
theorem addKey (hR : R a b) (k : Key) : Corresponds R (g.addKey k a) (g'.addKey k b) where
  unique := h.unique
  entries := by
    simp only [SameAt, get?_addKey]
    exact h.entries
  resolve k' := by
    rw [resolve?_addKey, resolve?_addKey]
    split
    · exact .some hR
    · exact h.resolve k'
  printed := by
    rw [printed_addKey, printed_addKey, h.printed]

theorem markPrinted (name : Name) : Corresponds R (g.markPrinted name) (g'.markPrinted name) where
  unique := h.unique
  entries := h.entries
  resolve := h.resolve
  printed := congrArg (·.insert name) h.printed

/-- New entries correspond to each other. -/
theorem add (hcovers : ids.Covers g.entries.Has) (hcovers' : ids'.Covers g'.entries.Has)
    (heq : d.untyped = d'.untyped) :
    Corresponds (fun x y => R x y ∨ (x = ids.fresh.1 ∧ y = ids'.fresh.1))
      (g.put ids.fresh.1 d) (g'.put ids'.fresh.1 d') := by
  have hold {x y : EntryId} (hxy : R x y) : ids.fresh.1 ≠ x ∧ ids'.fresh.1 ≠ y := by
    obtain ⟨e, e', he, he', -⟩ := h.entries x y hxy
    exact ⟨hcovers.ne_fresh ⟨e, he⟩, hcovers'.ne_fresh ⟨e', he'⟩⟩
  refine ⟨⟨?_, ?_⟩, ?_, ?_, h.printed⟩
  · rintro x y z (hx | ⟨hx, hxz⟩) (hy | ⟨hy, hyz⟩)
    · exact h.unique.1 hx hy
    · exact absurd hyz.symm (hold hx).2
    · exact absurd hxz.symm (hold hy).2
    · rw [hx, hy]
  · rintro x y z (hy | ⟨hxy, hy⟩) (hz | ⟨hxz, hz⟩)
    · exact h.unique.2 hy hz
    · exact absurd hxz.symm (hold hy).1
    · exact absurd hxy.symm (hold hz).1
    · rw [hy, hz]
  · rintro x y (hxy | ⟨rfl, rfl⟩)
    · simp only [SameAt, get?_put_of_ne (hold hxy).1, get?_put_of_ne (hold hxy).2]
      exact h.entries x y hxy
    · exact ⟨d, d', get?_put_self .., get?_put_self .., heq⟩
  · intro k
    rw [resolve?_put, resolve?_put]
    rcases optionRel_cases (h.resolve k) with ⟨hk, hk'⟩ | ⟨a, b, hk, hk', hR⟩
    · rw [hk, hk']
      exact .none
    · rw [hk, hk']
      exact .some (.inl hR)

end Corresponds

/-! ## Operations -/

/-- The table after an operation, which is the one before if the operation fails. -/
def after {α : Type} (g : Definitions) :
    Except TableError (α × IdSupply × Definitions) → Definitions
  | .ok (_, _, g') => g'
  | .error _ => g

theorem Matches.empty : Matches ∅ ∅ := ⟨_, corresponds_empty⟩

theorem Matches.symm (h : Matches g g') : Matches g' g := by
  obtain ⟨R, h⟩ := h
  exact ⟨_, h.flip⟩

theorem Matches.markPrinted (h : Matches g g') (name : Name) :
    Matches (g.markPrinted name) (g'.markPrinted name) := by
  obtain ⟨R, h⟩ := h
  exact ⟨R, h.markPrinted name⟩

/-- An entry may be put in one table only, if it differs in nothing but types and scopes. -/
theorem Matches.put_left (h : Matches g g') (hd : g.get? a = some d)
    (heq : d'.untyped = d.untyped) : Matches (g.put a d') g' := by
  obtain ⟨R, h⟩ := h
  exact ⟨R, h.put_left hd heq⟩

/-- What is changed is a function in both tables or in neither. -/
theorem Corresponds.after_functionAt (h : Corresponds R g g') (hR : R a b) {α : Type}
    {k k' : Function → α × IdSupply × Definitions}
    (hk : ∀ f f', f.untyped = f'.untyped → Matches (k f).2.2 (k' f').2.2) :
    Matches (g.after ((g.functionAt a).map k)) (g'.after ((g'.functionAt b).map k')) := by
  obtain ⟨d, d', hd, hd', heq⟩ := h.entries a b hR
  obtain v | f := d <;> obtain v' | f' := d'
  · simp only [functionAt, hd, hd', Except.map, after]
    exact ⟨R, h⟩
  · cases heq
  · cases heq
  · simp only [functionAt, hd, hd', Except.map, after]
    exact hk f f' (Definition.function.inj heq)

/-- If the two tables find a variable at corresponding ids, then they match after doing the same to
it. -/
theorem Corresponds.after_variableAt (h : Corresponds R g g') (hR : R a b) {α : Type}
    {k k' : Variable → α × IdSupply × Definitions}
    (hk : ∀ v v', v.untyped = v'.untyped → Matches (k v).2.2 (k' v').2.2) :
    Matches (g.after ((g.variableAt a).map k)) (g'.after ((g'.variableAt b).map k')) := by
  obtain ⟨d, d', hd, hd', heq⟩ := h.entries a b hR
  obtain v | f := d <;> obtain v' | f' := d'
  · simp only [variableAt, hd, hd', Except.map, after]
    exact hk v v' (Definition.variable.inj heq)
  · cases heq
  · cases heq
  · simp only [variableAt, hd, hd', Except.map, after]
    exact ⟨R, h⟩

section Looking

variable (h : Corresponds R g g')
include h

/-- A stamp leads nowhere in both tables, or to ids that correspond. -/
theorem Corresponds.stamp_cases (stamp : Stamp) :
    (g.idByStamp? stamp = none ∧ g'.idByStamp? stamp = none) ∨
    ∃ a b, g.idByStamp? stamp = some a ∧ g'.idByStamp? stamp = some b ∧ R a b :=
  optionRel_cases (h.resolve (.stamp stamp))

theorem Corresponds.symbol_cases (symbol : Symbol) :
    (g.idBySymbol? symbol = none ∧ g'.idBySymbol? symbol = none) ∨
    ∃ a b, g.idBySymbol? symbol = some a ∧ g'.idBySymbol? symbol = some b ∧ R a b :=
  optionRel_cases (h.resolve (.symbol symbol))

/-- A function is looked up by its stamp first and by its name then. -/
theorem Corresponds.function_cases {s s' : Signature} (hs : s.untyped = s'.untyped) :
    (g.idOf? s = none ∧ g'.idOf? s' = none) ∨
    ∃ a b, g.idOf? s = some a ∧ g'.idOf? s' = some b ∧ R a b := by
  obtain ⟨hstamp, hname⟩ := Signature.keys_eq hs
  rw [Definitions.idOf?, Definitions.idOf?, ← hstamp, ← hname]
  rcases h.stamp_cases s.stamp with ⟨hk, hk'⟩ | ⟨a, b, hk, hk', hR⟩
  · rw [hk, hk']
    exact optionRel_cases (h.resolve (.name s.name))
  · rw [hk, hk']
    exact .inr ⟨a, b, rfl, rfl, hR⟩

end Looking

/-- Corresponding functions are stored under corresponding ids. -/
theorem Corresponds.record (h : Corresponds R (g.put a d) (g'.put b d')) (hR : R a b)
    {s s' : Signature} (hs : s.untyped = s'.untyped) :
    Matches (((g.put a d).addStamp s.stamp a).addName s.name a)
      (((g'.put b d').addStamp s'.stamp b).addName s'.name b) := by
  obtain ⟨hstamp, hname⟩ := Signature.keys_eq hs
  rw [← hstamp, ← hname]
  exact ⟨R, (h.addKey hR (.stamp s.stamp)).addKey hR (.name s.name)⟩

section Declaring

variable (h : Matches g g') (hcovers : ids.Covers g.entries.Has)
  (hcovers' : ids'.Covers g'.entries.Has)
include h hcovers hcovers'

/-- Tables that match do so after the same variable is declared in each. -/
theorem Matches.declareVariable {v v' : Variable} (hv : v.untyped = v'.untyped) (stamp : Stamp)
    (defining : Bool) :
    Matches (g.after (g.declareVariable ids stamp v defining))
      (g'.after (g'.declareVariable ids' stamp v' defining)) := by
  obtain ⟨R, h⟩ := h
  rcases h.stamp_cases stamp with ⟨hk, hk'⟩ | ⟨a, b, hk, hk', hR⟩
  · simp only [Definitions.declareVariable, hk, hk']
    have hnew : (Definition.variable v).untyped = (Definition.variable v').untyped :=
      congrArg Definition.variable hv
    exact ⟨_, (h.add hcovers hcovers' hnew).addKey (.inr ⟨rfl, rfl⟩) (.stamp stamp)⟩
  · simp only [Definitions.declareVariable, hk, hk']
    refine h.after_variableAt hR fun old old' hold => ⟨R, h.put hR ?_⟩
    exact congrArg (fun v : Variable =>
      Definition.variable { v with isTentative := v.isTentative && !defining }) hold

theorem Matches.declarePrototype {s s' : Signature} (hs : s.untyped = s'.untyped) :
    Matches (g.after (g.declarePrototype ids s)) (g'.after (g'.declarePrototype ids' s')) := by
  obtain ⟨R, h⟩ := h
  rcases h.function_cases hs with ⟨hk, hk'⟩ | ⟨a, b, hk, hk', hR⟩
  · simp only [Definitions.declarePrototype, hk, hk']
    have hnew : (Definition.function s.declared).untyped =
        (Definition.function s'.declared).untyped :=
      congrArg (fun s : Signature => Definition.function s.declared) hs
    exact (h.add hcovers hcovers' hnew).record (.inr ⟨rfl, rfl⟩) hs
  · have hknown : g'.byStamp.insertIfNew s'.stamp b = g'.byStamp.insert s.stamp b := by
      rw [insertIfNew_eq_insert hk', (Signature.keys_eq hs).1]
    simp only [Definitions.declarePrototype, hk, hk', insertIfNew_eq_insert hk, hknown]
    exact h.after_functionAt hR fun _ _ _ => ⟨R, h.addKey hR (.stamp s.stamp)⟩

theorem Matches.defineFunction {s s' : Signature} {params params' : List Parameter}
    (hs : s.untyped = s'.untyped) (hparams : params.map (·.untyped) = params'.map (·.untyped)) :
    Matches (g.after (g.defineFunction ids s params))
      (g'.after (g'.defineFunction ids' s' params')) := by
  obtain ⟨R, h⟩ := h
  rcases h.function_cases hs with ⟨hk, hk'⟩ | ⟨a, b, hk, hk', hR⟩
  · simp only [Definitions.defineFunction, hk, hk']
    have hnew : (Definition.function (s.defined params)).untyped =
        (Definition.function (s'.defined params')).untyped := by
      simp only [Definition.untyped, Signature.untyped_defined, hs, hparams]
    exact (h.add hcovers hcovers' hnew).record (.inr ⟨rfl, rfl⟩) hs
  · simp only [Definitions.defineFunction, hk, hk']
    refine h.after_functionAt hR fun old old' hold => ?_
    have hredefined : (Definition.function (redefined s params old)).untyped =
        (Definition.function (redefined s' params' old')).untyped := by
      simp only [Definition.untyped, untyped_redefined, hs, hparams, hold]
    exact (h.put hR hredefined).record hR hs

end Declaring

section Binding

variable (h : Matches g g')
include h

theorem Matches.bindSymbol (stamp : Stamp) (symbol : Symbol) :
    Matches (((g.bindSymbol stamp symbol).map (·.2)).getD g)
      (((g'.bindSymbol stamp symbol).map (·.2)).getD g') := by
  obtain ⟨R, h⟩ := h
  rcases h.stamp_cases stamp with ⟨hk, hk'⟩ | ⟨a, b, hk, hk', hR⟩
  · simp only [Definitions.bindSymbol, hk, hk']
    exact ⟨R, h⟩
  · obtain ⟨d, d', hd, hd', heq⟩ := h.entries a b hR
    rw [bindSymbol_eq_some_iff.2 ⟨d, hk, hd, rfl⟩, bindSymbol_eq_some_iff.2 ⟨d', hk', hd', rfl⟩]
    have hbound : (d.withSymbol symbol).untyped = (d'.withSymbol symbol).untyped := by
      rw [Definition.untyped_withSymbol, Definition.untyped_withSymbol, heq]
    exact ⟨R, (h.put hR hbound).addKey hR (.symbol symbol)⟩

theorem Matches.bindCode (symbol : Symbol) (code : CodeRange) :
    Matches (g.after ((g.bindCode symbol code).map fun (b, g) => (b, ids, g)))
      (g'.after ((g'.bindCode symbol code).map fun (b, g) => (b, ids', g))) := by
  obtain ⟨R, h⟩ := h
  rcases h.symbol_cases symbol with ⟨hk, hk'⟩ | ⟨a, b, hk, hk', hR⟩
  · simp only [Definitions.bindCode, hk, hk']
    exact ⟨R, h⟩
  · simp only [Definitions.bindCode, hk, hk', map_map]
    refine h.after_functionAt hR fun f f' hf => ⟨R, h.put hR ?_⟩
    exact congrArg (fun f : Function => Definition.function { f with code := some code }) hf

theorem Matches.bindParameter (function param : Stamp) (symbol : Symbol) :
    Matches (g.after ((g.bindParameter function param symbol).map fun (b, g) => (b, ids, g)))
      (g'.after ((g'.bindParameter function param symbol).map fun (b, g) => (b, ids', g))) := by
  obtain ⟨R, h⟩ := h
  rcases h.stamp_cases function with ⟨hk, hk'⟩ | ⟨a, b, hk, hk', hR⟩
  · simp only [Definitions.bindParameter, hk, hk']
    exact ⟨R, h⟩
  · simp only [Definitions.bindParameter, hk, hk', map_map]
    refine h.after_functionAt hR fun f f' hf => ?_
    have hparams : f.params.map (·.untyped) = f'.params.map (·.untyped) :=
      congrArg Function.params hf
    have hany : (f.params.any (·.stamp == param)) = f'.params.any (·.stamp == param) := by
      have hmap := congrArg (List.any · (·.stamp == param)) hparams
      simp only [List.any_map] at hmap
      exact hmap
    simp only [Function.comp_apply, ← hany]
    split
    · refine ⟨R, h.put hR ?_⟩
      have hbound := Function.untyped_bindParameter param symbol
      simp only [Definition.untyped, hbound, hf]
    · exact ⟨R, h⟩

end Binding

end Definitions

end DebugInfo
