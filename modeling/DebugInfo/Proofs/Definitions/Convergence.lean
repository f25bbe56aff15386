import Mathlib.Data.List.Basic
import DebugInfo.Proofs.Definitions.Grounded

/-!
# Declarations of one function converge

A function is declared under several stamps: a call declares it before its prototype is seen, and
the prototype before the body.  If every stamp always comes with the same name, all declarations of
a name reach one entry, whatever else happens to the table in between.

The stamp is looked up first and the name second, so the two indices must not contradict each other.
`Converged` says that they do not: the index of names is the inverse of naming the functions, and a
stamp of a function leads to the function of its name.  Variables have stamps of their own, and a
stamp that leads to a variable is refused to functions.
-/

namespace DebugInfo

/-- The name of a function.  Variables are not found by name. -/
def Definition.functionName? : Definition → Option Name
  | .variable _ => none
  | .function f => some f.name

@[simp] theorem Definition.functionName?_withSymbol (s : Symbol) (d : Definition) :
    (d.withSymbol s).functionName? = d.functionName? := by
  cases d <;> rfl

namespace Definitions

/-! ## Runs -/

inductive Operation where
  | declareVariable (stamp : Stamp) (v : Variable) (defining : Bool)
  | declarePrototype (s : Signature)
  | defineFunction (s : Signature) (params : List Parameter)
  | bindSymbol (stamp : Stamp) (symbol : Symbol)
  | bindCode (symbol : Symbol) (code : CodeRange)
  | bindParameter (function param : Stamp) (symbol : Symbol)
  | setRootScope (id scope : EntryId)
  | markPrinted (name : Name)
  /-- An id is handed out to an entry of another table. -/
  | skip
  /-- Every definition is forgotten, and ids go on from any supply. -/
  | clear (ids : IdSupply)

/-- The supply of ids together with the table. -/
abbrev State := IdSupply × Definitions

/-- The id that an operation answers with, if it does with any, and the state after it. -/
def perform (s : State) : Operation → Except TableError (Option EntryId × State)
  | .declareVariable stamp v defining =>
      (s.2.declareVariable s.1 stamp v defining).map fun (id, s) => (some id, s)
  | .declarePrototype sig => (s.2.declarePrototype s.1 sig).map fun (id, s) => (some id, s)
  | .defineFunction sig params =>
      (s.2.defineFunction s.1 sig params).map fun (id, s) => (some id, s)
  | .bindSymbol stamp symbol =>
      match s.2.bindSymbol stamp symbol with
      | none => .ok (none, s)
      | some (id, g) => .ok (some id, s.1, g)
  | .bindCode symbol code => (s.2.bindCode symbol code).map fun (_, g) => (none, s.1, g)
  | .bindParameter function param symbol =>
      (s.2.bindParameter function param symbol).map fun (_, g) => (none, s.1, g)
  | .setRootScope id scope => (s.2.setRootScope id scope).map fun g => (none, s.1, g)
  | .markPrinted name => .ok (none, s.1, s.2.markPrinted name)
  | .skip => .ok (none, s.1.fresh.2, s.2)
  | .clear ids => .ok (none, ids, s.2.clear)

/-- The state after an operation, which is the same one if it fails. -/
def step (s : State) (op : Operation) : State :=
  match perform s op with
  | .ok (_, s') => s'
  | .error _ => s

def runFrom (s : State) (ops : List Operation) : State := ops.foldl step s

def run (ids : IdSupply) (ops : List Operation) : State := runFrom (ids, ∅) ops

theorem runFrom_cons (s : State) (op : Operation) (ops : List Operation) :
    runFrom s (op :: ops) = runFrom (step s op) ops :=
  rfl

/-- A run may be cut into two. -/
theorem run_append (ids : IdSupply) (before after : List Operation) :
    run ids (before ++ after) = runFrom (run ids before) after :=
  List.foldl_append

/-- What a declaration says about a function. -/
def Operation.signature? : Operation → Option Signature
  | .declarePrototype s => some s
  | .defineFunction s _ => some s
  | _ => none

/-- No stamp is given to functions of two names. -/
def OneName (ops : List Operation) : Prop :=
  ∀ s ∈ ops.filterMap (·.signature?), ∀ s' ∈ ops.filterMap (·.signature?),
    s.stamp = s'.stamp → s.name = s'.name

def Operation.isClear : Operation → Bool
  | .clear _ => true
  | _ => false

/-! ## The invariant -/

/-- The name of the function at an id. -/
def functionName? (g : Definitions) (id : EntryId) : Option Name :=
  (g.get? id).bind (·.functionName?)

/-- An id has a name if and only if there is a function of that name. -/
theorem functionName?_eq_some_iff {g : Definitions} {id : EntryId} {name : Name} :
    g.functionName? id = some name ↔ ∃ f, g.get? id = some (.function f) ∧ f.name = name := by
  unfold functionName?
  rcases g.get? id with _ | (v | f) <;> simp [Definition.functionName?]

structure Converged (nameOf : Stamp → Name) (s : State) : Prop where
  grounded : Grounded s.1 s.2
  name_iff : ∀ name id, s.2.idByName? name = some id ↔ s.2.functionName? id = some name
  stamp : ∀ stamp id name, s.2.idByStamp? stamp = some id → s.2.functionName? id = some name →
    name = nameOf stamp

/-- Functions keep their names. -/
def KeepsNames (g g' : Definitions) : Prop :=
  ∀ id name, g.functionName? id = some name → g'.functionName? id = some name

variable {nameOf : Stamp → Name} {g g' : Definitions} {ids ids' : IdSupply} {id : EntryId}
  {d d' : Definition} {s : Signature}

/-- Where names are looked up in the same way, none is lost. -/
theorem KeepsNames.of_eq (h : g'.functionName? = g.functionName?) : KeepsNames g g' := by
  intro id name hn
  rw [h, hn]

/-- A table without entries has nothing to agree on. -/
theorem converged_empty (nameOf : Stamp → Name) (ids : IdSupply) : Converged nameOf (ids, ∅) where
  grounded := grounded_empty ids
  name_iff name id := by simp [functionName?]
  stamp stamp id name h := by simp at h

theorem functionName?_put (g : Definitions) (id id' : EntryId) (d : Definition) :
    (g.put id d).functionName? id' = if id = id' then d.functionName? else g.functionName? id' := by
  unfold functionName?
  rw [get?_put]
  split <;> rfl

/-- An entry that is replaced by one of the same name changes no names. -/
theorem functionName?_put_of_eq (hd : g.get? id = some d)
    (hname : d'.functionName? = d.functionName?) :
    (g.put id d').functionName? = g.functionName? := by
  funext id'
  rw [functionName?_put]
  split
  · next heq => rw [hname, ← heq, functionName?, hd, Option.bind_some]
  · rfl

theorem isFunction_eq_of_functionName?_eq (h : d'.functionName? = d.functionName?) :
    d'.isFunction = d.isFunction := by
  cases d <;> cases d' <;> simp_all [Definition.functionName?, Definition.isFunction]

namespace Converged

variable (h : Converged nameOf (ids, g))
include h

/-- An entry is replaced, where functions keep their names. -/
theorem put (hd : g.get? id = some d) (d' : Definition)
    (hname : d'.functionName? = d.functionName?) :
    Converged nameOf (ids, g.put id d') ∧ KeepsNames g (g.put id d') := by
  have hnames := functionName?_put_of_eq hd hname
  refine ⟨⟨h.grounded.put hd (isFunction_eq_of_functionName?_eq hname), ?_, ?_⟩, .of_eq hnames⟩
  · intro name id'
    rw [hnames]
    exact h.name_iff name id'
  · intro stamp id' name
    rw [hnames]
    exact h.stamp stamp id' name

/-- A stamp may lead to a variable, or to the function of the name that the stamp belongs to. -/
theorem addStamp {stamp : Stamp} (hd : g.get? id = some d)
    (hname : ∀ name, g.functionName? id = some name → name = nameOf stamp) :
    Converged nameOf (ids, g.addStamp stamp id) := by
  refine ⟨h.grounded.addStamp hd stamp, h.name_iff, ?_⟩
  intro stamp' id' name hs hn
  rw [idByStamp?_addStamp] at hs
  split at hs
  · next heq =>
    cases hs
    exact heq ▸ hname name hn
  · exact h.stamp stamp' id' name hs hn

/-- The name of a function leads to it already. -/
theorem addName {name : Name} (hn : g.functionName? id = some name) :
    Converged nameOf (ids, g.addName name id) := by
  obtain ⟨f, hf, -⟩ := functionName?_eq_some_iff.1 hn
  refine ⟨h.grounded.addName hf name, ?_, h.stamp⟩
  intro name' id'
  rw [idByName?_addName]
  split
  · next heq =>
    subst heq
    rw [← (h.name_iff name id).2 hn]
    exact h.name_iff name id'
  · exact h.name_iff name' id'

/-- Nothing has the next id yet. -/
theorem functionName?_fresh : g.functionName? ids.fresh.1 = none := by
  cases hn : g.functionName? ids.fresh.1 with
  | none => rfl
  | some name =>
    obtain ⟨f, hf, -⟩ := functionName?_eq_some_iff.1 hn
    exact absurd rfl (h.grounded.ne_fresh hf)

/-- A variable is added.  Its id was the name of no function and still is not. -/
theorem putVariable (v : Variable) :
    Converged nameOf (ids.fresh.2, g.put ids.fresh.1 (.variable v)) ∧
      KeepsNames g (g.put ids.fresh.1 (.variable v)) := by
  have hnames : (g.put ids.fresh.1 (.variable v)).functionName? = g.functionName? := by
    funext id
    rw [functionName?_put]
    split
    · next heq =>
      rw [← heq, h.functionName?_fresh]
      rfl
    · rfl
  refine ⟨⟨h.grounded.put_fresh _, ?_, ?_⟩, .of_eq hnames⟩
  · intro name id
    rw [hnames]
    exact h.name_iff name id
  · intro stamp id name
    rw [hnames]
    exact h.stamp stamp id name

/-- A function is added under a name that led nowhere, and so was the name of no function. -/
theorem putFunction {f : Function} (hname : g.idByName? f.name = none) :
    Converged nameOf (ids.fresh.2, (g.put ids.fresh.1 (.function f)).addName f.name ids.fresh.1) ∧
      KeepsNames g (g.put ids.fresh.1 (.function f)) := by
  have hold {id : EntryId} {name : Name} (hn : g.functionName? id = some name) :
      ids.fresh.1 ≠ id := by
    rintro rfl
    rw [h.functionName?_fresh] at hn
    cases hn
  have hkeeps : KeepsNames g (g.put ids.fresh.1 (.function f)) := by
    intro id name hn
    rw [functionName?_put, if_neg (hold hn), hn]
  refine ⟨⟨(h.grounded.put_fresh _).addName (get?_put_self ..) f.name, ?_, ?_⟩, hkeeps⟩
  · intro name id
    show ((g.put ids.fresh.1 (.function f)).addName f.name ids.fresh.1).idByName? name = some id ↔
      (g.put ids.fresh.1 (.function f)).functionName? id = some name
    rw [idByName?_addName, functionName?_put]
    by_cases hf : f.name = name
    · subst hf
      rw [if_pos rfl]
      constructor
      · rintro h
        cases h
        rw [if_pos rfl]
        rfl
      · intro hn
        split at hn
        · next heq => rw [heq]
        · rw [(h.name_iff _ id).2 hn] at hname
          cases hname
    · rw [if_neg hf]
      constructor
      · intro hid
        have hn := (h.name_iff name id).1 hid
        rw [if_neg (hold hn), hn]
      · intro hn
        split at hn
        · exact absurd (Option.some.inj hn) hf
        · exact (h.name_iff name id).2 hn
  · intro stamp id name hs hn
    have hs : g.idByStamp? stamp = some id := hs
    have hn : (g.put ids.fresh.1 (.function f)).functionName? id = some name := hn
    obtain ⟨d, hd⟩ := h.grounded.byStamp stamp id hs
    rw [functionName?_put, if_neg (h.grounded.ne_fresh hd)] at hn
    exact h.stamp stamp id name hs hn

/-- A function that is found for a declaration has the name that is declared. -/
theorem functionName?_of_idOf? (hs : s.name = nameOf s.stamp) (hid : g.idOf? s = some id)
    {f : Function} (hf : g.get? id = some (.function f)) :
    g.functionName? id = some s.name := by
  have hn : g.functionName? id = some f.name := functionName?_eq_some_iff.2 ⟨f, hf, rfl⟩
  rcases idOf?_eq_some_iff.1 hid with hstamp | ⟨-, hname⟩
  · rw [hn, h.stamp s.stamp id f.name hstamp hn, hs]
  · exact (h.name_iff s.name id).1 hname

/-- A function that was found under neither its stamp nor its name may be recorded under the next
id. -/
theorem record_fresh (hs : s.name = nameOf s.stamp) (hid : g.idOf? s = none) (f : Function)
    (hf : f.name = s.name) :
    Converged nameOf (ids.fresh.2, g.record ids.fresh.1 s f) ∧
      KeepsNames g (g.record ids.fresh.1 s f) := by
  have hname : g.idByName? f.name = none := by
    rw [hf]
    exact (idOf?_eq_none_iff.1 hid).2
  obtain ⟨hput, hkeeps⟩ := h.putFunction hname
  refine ⟨?_, hkeeps⟩
  have hrecord : Converged nameOf (ids.fresh.2, ((g.put ids.fresh.1 (.function f)).addName f.name
      ids.fresh.1).addStamp s.stamp ids.fresh.1) := by
    refine hput.addStamp (get?_put_self ..) ?_
    intro name hn
    have hn : (g.put ids.fresh.1 (.function f)).functionName? ids.fresh.1 = some name := hn
    rw [functionName?_put, if_pos rfl] at hn
    rw [← hs, ← hf]
    exact (Option.some.inj hn).symm
  rwa [hf] at hrecord

/-- A function that is known gets another body, and maybe another stamp, but no other name. -/
theorem record (hs : s.name = nameOf s.stamp) (hid : g.idOf? s = some id) {old : Function}
    (hold : g.get? id = some (.function old)) (f : Function) (hf : f.name = s.name) :
    Converged nameOf (ids, g.record id s f) ∧ KeepsNames g (g.record id s f) := by
  have hn := h.functionName?_of_idOf? hs hid hold
  have hname : f.name = old.name := by
    obtain ⟨old', hold', heq⟩ := functionName?_eq_some_iff.1 hn
    rw [hold] at hold'
    cases hold'
    rw [hf, heq]
  obtain ⟨hput, hkeeps⟩ := h.put hold (.function f) (congrArg some hname)
  refine ⟨?_, hkeeps⟩
  have hstamp : Converged nameOf (ids, (g.put id (.function f)).addStamp s.stamp id) := by
    refine hput.addStamp (get?_put_self ..) ?_
    intro name hn'
    rw [hkeeps id s.name hn] at hn'
    rw [← hs]
    exact (Option.some.inj hn').symm
  exact hstamp.addName (hkeeps id s.name hn)

end Converged

/-! ## Operations -/

/-- The table stays converged, stamps lead where they led, and functions keep their names. -/
structure Continues (nameOf : Stamp → Name) (st st' : State) : Prop where
  converged : Converged nameOf st'
  stamps : KeepsStamps st.2 st'.2
  names : KeepsNames st.2 st'.2

/-- What goes on from a state that goes on from another one goes on from that one as well. -/
theorem Continues.trans {st₁ st₂ st₃ : State} (h : Continues nameOf st₁ st₂)
    (h' : Continues nameOf st₂ st₃) : Continues nameOf st₁ st₃ :=
  ⟨h'.converged, h.stamps.trans h'.stamps, fun id name hn => h'.names id name (h.names id name hn)⟩

namespace Converged

theorem continues {st : State} (h : Converged nameOf st) : Continues nameOf st st :=
  ⟨h, .refl st.2, fun _ _ hn => hn⟩

variable (h : Converged nameOf (ids, g))
include h

/-- A declaration of a variable concerns no function. -/
theorem declareVariable {stamp : Stamp} {v : Variable} {defining : Bool}
    (ho : g.declareVariable ids stamp v defining = .ok (id, ids', g')) :
    Continues nameOf (ids, g) (ids', g') := by
  have hstamps := (h.grounded.declareVariable ho).2
  rcases declareVariable_cases ho with ⟨-, rfl, rfl, rfl⟩ | ⟨-, rfl, old, hold, rfl⟩
  · obtain ⟨hput, hnames⟩ := h.putVariable v
    refine ⟨hput.addStamp (get?_put_self ..) ?_, hstamps, hnames⟩
    intro name hn
    rw [functionName?_put, if_pos rfl] at hn
    cases hn
  · obtain ⟨hput, hnames⟩ := h.put hold
      (.variable { old with isTentative := old.isTentative && !defining }) rfl
    exact ⟨hput, hstamps, hnames⟩

/-- A prototype under a stamp of its name leaves every function under its stamps and its name. -/
theorem declarePrototype (hs : s.name = nameOf s.stamp)
    (ho : g.declarePrototype ids s = .ok (id, ids', g')) :
    Continues nameOf (ids, g) (ids', g') := by
  have hstamps := (h.grounded.declarePrototype ho).2
  rcases declarePrototype_cases ho with ⟨hid, rfl, rfl, rfl⟩ | ⟨hid, rfl, ⟨f, hf⟩, rfl⟩
  · obtain ⟨hrecord, hnames⟩ := h.record_fresh hs hid s.declared rfl
    exact ⟨hrecord, hstamps, hnames⟩
  · refine ⟨h.addStamp hf ?_, hstamps, fun _ _ hn => hn⟩
    intro name hn
    rw [h.functionName?_of_idOf? hs hid hf] at hn
    rw [← hs]
    exact (Option.some.inj hn).symm

/-- So does a definition under a stamp of its name. -/
theorem defineFunction {params : List Parameter} (hs : s.name = nameOf s.stamp)
    (ho : g.defineFunction ids s params = .ok (id, ids', g')) :
    Continues nameOf (ids, g) (ids', g') := by
  have hstamps := (h.grounded.defineFunction ho).2
  rcases defineFunction_cases ho with ⟨hid, rfl, rfl, rfl⟩ | ⟨hid, rfl, old, hold, rfl⟩
  · obtain ⟨hrecord, hnames⟩ := h.record_fresh hs hid (s.defined params) rfl
    exact ⟨hrecord, hstamps, hnames⟩
  · obtain ⟨hrecord, hnames⟩ := h.record hs hid hold (redefined s params old) rfl
    exact ⟨hrecord, hstamps, hnames⟩

/-- A symbol does not change a name. -/
theorem bindSymbol {stamp : Stamp} {symbol : Symbol}
    (ho : g.bindSymbol stamp symbol = some (id, g')) :
    Continues nameOf (ids, g) (ids, g') := by
  obtain ⟨d, -, hd, rfl⟩ := bindSymbol_eq_some_iff.1 ho
  obtain ⟨hput, hnames⟩ := h.put hd _ (Definition.functionName?_withSymbol symbol d)
  exact ⟨⟨hput.grounded.addSymbol (get?_put_self ..) symbol, hput.name_iff, hput.stamp⟩,
    .refl g, hnames⟩

/-- A function is changed, but not its name. -/
theorem putFunctionAt {f f' : Function} (hf : g.get? id = some (.function f))
    (hname : f'.name = f.name) :
    Continues nameOf (ids, g) (ids, g.put id (.function f')) := by
  obtain ⟨hput, hnames⟩ := h.put hf (.function f') (congrArg some hname)
  exact ⟨hput, .refl g, hnames⟩

theorem bindCode {symbol : Symbol} {code : CodeRange} {b : Bool}
    (ho : g.bindCode symbol code = .ok (b, g')) : Continues nameOf (ids, g) (ids, g') := by
  rcases bindCode_cases ho with rfl | ⟨id, f, hf, rfl⟩
  · exact h.continues
  · exact h.putFunctionAt hf rfl

theorem bindParameter {function param : Stamp} {symbol : Symbol} {b : Bool}
    (ho : g.bindParameter function param symbol = .ok (b, g')) :
    Continues nameOf (ids, g) (ids, g') := by
  rcases bindParameter_cases ho with rfl | ⟨id, f, hf, rfl⟩
  · exact h.continues
  · exact h.putFunctionAt hf rfl

theorem setRootScope {scope : EntryId} (ho : g.setRootScope id scope = .ok g') :
    Continues nameOf (ids, g) (ids, g') := by
  obtain ⟨f, hf, rfl⟩ := setRootScope_eq_ok_iff.1 ho
  exact h.putFunctionAt hf rfl

theorem markPrinted (name : Name) : Continues nameOf (ids, g) (ids, g.markPrinted name) :=
  ⟨⟨h.grounded.markPrinted name, h.name_iff, h.stamp⟩, .refl g, fun _ _ hn => hn⟩

theorem skip : Continues nameOf (ids, g) (ids.fresh.2, g) :=
  ⟨⟨h.grounded.mono (Nat.le_succ _), h.name_iff, h.stamp⟩, .refl g, fun _ _ hn => hn⟩

end Converged

/-! ## Steps and runs -/

/-- What the operation says about a function agrees with `nameOf`. -/
def Operation.Respects (nameOf : Stamp → Name) (op : Operation) : Prop :=
  ∀ s, op.signature? = some s → s.name = nameOf s.stamp

section Step

variable {st st' : State} {op : Operation} {answer : Option EntryId}
  (h : Converged nameOf st) (hop : op.Respects nameOf)
include h hop

/-- Each operation but clearing keeps every function under its stamps and its name. -/
theorem perform_continues (hclear : op.isClear = false) (ho : perform st op = .ok (answer, st')) :
    Continues nameOf st st' := by
  cases op with
  | declareVariable stamp v defining =>
    obtain ⟨_, hg, heq⟩ := map_eq_ok_iff.1 ho
    cases heq
    exact h.declareVariable hg
  | declarePrototype s =>
    obtain ⟨_, hg, heq⟩ := map_eq_ok_iff.1 ho
    cases heq
    exact h.declarePrototype (hop s rfl) hg
  | defineFunction s params =>
    obtain ⟨_, hg, heq⟩ := map_eq_ok_iff.1 ho
    cases heq
    exact h.defineFunction (hop s rfl) hg
  | bindSymbol stamp symbol =>
    unfold perform at ho
    dsimp only at ho
    split at ho
    · cases ho
      exact h.continues
    · next hg =>
      cases ho
      exact h.bindSymbol hg
  | bindCode symbol code =>
    obtain ⟨_, hg, heq⟩ := map_eq_ok_iff.1 ho
    cases heq
    exact h.bindCode hg
  | bindParameter function param symbol =>
    obtain ⟨_, hg, heq⟩ := map_eq_ok_iff.1 ho
    cases heq
    exact h.bindParameter hg
  | setRootScope id scope =>
    obtain ⟨_, hg, heq⟩ := map_eq_ok_iff.1 ho
    cases heq
    exact h.setRootScope hg
  | markPrinted name =>
    cases ho
    exact h.markPrinted name
  | skip =>
    cases ho
    exact h.skip
  | clear ids => cases hclear

theorem step_continues (hclear : op.isClear = false) : Continues nameOf st (step st op) := by
  unfold step
  split
  · next ho => exact perform_continues h hop hclear ho
  · exact h.continues

/-- One operation, whether it fails or not. -/
theorem step_converged : Converged nameOf (step st op) := by
  cases hclear : op.isClear with
  | false => exact (step_continues h hop hclear).converged
  | true =>
    cases op with
    | clear ids => exact converged_empty nameOf ids
    | _ => cases hclear

end Step

/-- A function that was recorded is found under its stamp and has its name. -/
theorem found_record (g : Definitions) (id : EntryId) {f : Function} (hf : f.name = s.name) :
    (g.record id s f).idByStamp? s.stamp = some id ∧
      (g.record id s f).functionName? id = some s.name := by
  rw [record_eq, idByStamp?_addName, idByStamp?_addStamp, if_pos rfl]
  exact ⟨rfl, functionName?_eq_some_iff.2 ⟨f, get?_put_self .., hf⟩⟩

/-- A declaration of a function answers with the id that its stamp leads to afterwards, which is
that of a function of its name. -/
theorem found_of_perform {st st' : State} {op : Operation} (h : Converged nameOf st)
    (hop : op.Respects nameOf) (hs : op.signature? = some s)
    (ho : perform st op = .ok (some id, st')) :
    st'.2.idByStamp? s.stamp = some id ∧ st'.2.functionName? id = some s.name := by
  cases op with
  | declarePrototype sig =>
    cases hs
    obtain ⟨⟨id', st'⟩, hg, heq⟩ := map_eq_ok_iff.1 ho
    cases heq
    rcases declarePrototype_cases hg with ⟨-, -, -, hg'⟩ | ⟨hid, -, ⟨f, hf⟩, hg'⟩
    · rw [hg']
      exact found_record _ _ rfl
    · rw [hg', idByStamp?_addStamp, if_pos rfl]
      exact ⟨rfl, h.functionName?_of_idOf? (hop s rfl) hid hf⟩
  | defineFunction sig params =>
    cases hs
    obtain ⟨⟨id', st'⟩, hg, heq⟩ := map_eq_ok_iff.1 ho
    cases heq
    rcases defineFunction_cases hg with ⟨-, -, -, hg'⟩ | ⟨-, -, old, -, hg'⟩
    · rw [hg']
      exact found_record _ _ rfl
    · rw [hg']
      exact found_record _ _ rfl
  | _ => cases hs

/-- Any run of operations whose stamps belong to one name each. -/
theorem runFrom_converged {st : State} (h : Converged nameOf st) {ops : List Operation}
    (hops : ∀ op ∈ ops, op.Respects nameOf) : Converged nameOf (runFrom st ops) := by
  induction ops generalizing st with
  | nil => exact h
  | cons op ops ih =>
    have hop := hops op List.mem_cons_self
    exact ih (step_converged h hop) fun op' hmem => hops op' (List.mem_cons_of_mem op hmem)

/-- A run in which the table is not cleared keeps every function under its stamps and its name. -/
theorem runFrom_continues {st : State} (h : Converged nameOf st) {ops : List Operation}
    (hops : ∀ op ∈ ops, op.Respects nameOf) (hclear : ∀ op ∈ ops, op.isClear = false) :
    Continues nameOf st (runFrom st ops) := by
  induction ops generalizing st with
  | nil => exact h.continues
  | cons op ops ih =>
    have hstep := step_continues h (hops op List.mem_cons_self) (hclear op List.mem_cons_self)
    exact hstep.trans (ih hstep.converged (fun op' hmem => hops op' (List.mem_cons_of_mem op hmem))
      fun op' hmem => hclear op' (List.mem_cons_of_mem op hmem))

/-- Where no stamp is given to two names, the stamp says what the name is. -/
theorem exists_respects {ops : List Operation} (h : OneName ops) :
    ∃ nameOf : Stamp → Name, ∀ op ∈ ops, op.Respects nameOf := by
  let sigs := ops.filterMap (·.signature?)
  refine ⟨fun stamp => ((sigs.find? (·.stamp == stamp)).map (·.name)).getD Name.empty, ?_⟩
  intro op hop s hs
  have hmem : s ∈ sigs := List.mem_filterMap.2 ⟨op, hop, hs⟩
  cases hfind : sigs.find? (·.stamp == s.stamp) with
  | none => exact absurd (beq_self_eq_true s.stamp) (List.find?_eq_none.1 hfind s hmem)
  | some s' =>
    have hstamp : s'.stamp = s.stamp := by simpa using List.find?_some hfind
    simp only [hfind, Option.map_some, Option.getD_some]
    exact h s hmem s' (List.mem_of_find?_eq_some hfind) hstamp.symm

/-- If no stamp is given to functions of two names, then at the end of any run no two functions have
the same name, and the index of names leads to each function from its name.  Whatever happened
since the table was last cleared, a declaration of a function answered with the id that its name and
its stamp lead to at the end, and every stamp leads where it led before. -/
theorem run_converges (ids : IdSupply) (ops : List Operation) (h : OneName ops) :
    let g := (run ids ops).2
    (∀ id id' f f', g.get? id = some (.function f) → g.get? id' = some (.function f') →
      f.name = f'.name → id = id') ∧
    (∀ name id, g.idByName? name = some id ↔ ∃ f, g.get? id = some (.function f) ∧ f.name = name) ∧
    (∀ before op after, ops = before ++ op :: after → (∀ op ∈ after, op.isClear = false) →
      ∀ s id, op.signature? = some s → (perform (run ids before) op).map (·.1) = .ok (some id) →
        g.idByName? s.name = some id ∧ g.idByStamp? s.stamp = some id) ∧
    ∀ before after, ops = before ++ after → (∀ op ∈ after, op.isClear = false) →
      KeepsStamps (run ids before).2 g := by
  intro g
  obtain ⟨nameOf, hops⟩ := exists_respects h
  have hempty := converged_empty nameOf ids
  have hconv : Converged nameOf (run ids ops) := runFrom_converged hempty hops
  refine ⟨?_, ?_, ?_, ?_⟩
  · intro id id' f f' hf hf' hname
    have hid := (hconv.name_iff f.name id).2 (functionName?_eq_some_iff.2 ⟨f, hf, rfl⟩)
    have hid' := (hconv.name_iff f.name id').2 (functionName?_eq_some_iff.2 ⟨f', hf', hname.symm⟩)
    exact Option.some.inj (hid.symm.trans hid')
  · intro name id
    rw [← functionName?_eq_some_iff]
    exact hconv.name_iff name id
  · rintro before op after rfl hclear s id hs ho
    have hbefore : Converged nameOf (run ids before) :=
      runFrom_converged hempty fun op' hmem => hops op' (List.mem_append_left _ hmem)
    have hop := hops op (List.mem_append_right _ List.mem_cons_self)
    obtain ⟨⟨answer, st⟩, ho, heq⟩ := map_eq_ok_iff.1 ho
    cases heq
    obtain ⟨hstamp, hname⟩ := found_of_perform hbefore hop hs ho
    have hstep : step (run ids before) op = st := by rw [step, ho]
    have hrest : Continues nameOf st (run ids (before ++ op :: after)) := by
      rw [run_append, runFrom_cons, hstep]
      exact runFrom_continues (hstep ▸ step_converged hbefore hop)
        (fun op' hmem => hops op' (List.mem_append_right _ (List.mem_cons_of_mem op hmem))) hclear
    exact ⟨(hconv.name_iff s.name id).2 (hrest.names id s.name hname),
      hrest.stamps s.stamp id hstamp⟩
  · rintro before after rfl hclear
    have hbefore : Converged nameOf (run ids before) :=
      runFrom_converged hempty fun op' hmem => hops op' (List.mem_append_left _ hmem)
    have hrest : Continues nameOf (run ids before) (run ids (before ++ after)) := by
      rw [run_append]
      exact runFrom_continues hbefore
        (fun op' hmem => hops op' (List.mem_append_right _ hmem)) hclear
    exact hrest.stamps

/-- A call declares the function under a stamp of its own before a variable and the body come. -/
theorem run_converges_implicit :
    let call : Signature :=
      { name := ⟨7⟩, stamp := ⟨1⟩, storage := .external, loc := ⟨⟨1⟩, 3, 1⟩, result := none,
        isVariadic := false }
    let body : Signature := { call with stamp := ⟨2⟩ }
    let v : Variable :=
      { name := ⟨7⟩, loc := ⟨⟨1⟩, 5, 1⟩, isTentative := true, isExternal := true, type := ⟨9⟩ }
    let ops : List Operation :=
      [.declarePrototype call, .declareVariable ⟨3⟩ v false, .defineFunction body [],
        .bindSymbol ⟨1⟩ ⟨4⟩]
    OneName ops ∧ (run {} ops).2.idByName? ⟨7⟩ = some ⟨0⟩ ∧
      (run {} ops).2.idByStamp? ⟨2⟩ = some ⟨0⟩ := by
  intro call body v ops
  have h : OneName ops := by
    unfold OneName
    decide
  have hbody : (perform (run {} [.declarePrototype call, .declareVariable ⟨3⟩ v false])
      (.defineFunction body [])).map (·.1) = .ok (some ⟨0⟩) := by
    decide +kernel
  have hlast : ∀ op ∈ [Operation.bindSymbol ⟨1⟩ ⟨4⟩], op.isClear = false := by
    simp [Operation.isClear]
  exact ⟨h, (run_converges {} ops h).2.2.1 _ _ _ rfl hlast body ⟨0⟩ rfl hbody⟩

end Definitions

end DebugInfo
