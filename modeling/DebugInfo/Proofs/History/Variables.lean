import DebugInfo.Proofs.Failure.Misuse
import DebugInfo.Proofs.History.Writes

/-!
# What a variable says about its history

A global variable is declared under one stamp, any number of times.  The first declaration makes the
definition and the others add to it one fact at most, which is that it is not tentative.  This is
computed in one way by the first declaration and in another by the later ones, and both come to the
same: a variable is tentative if all its declarations are, so their order does not matter.
-/

namespace DebugInfo

namespace VariableDecl

/-- The declaration says `extern` and has no initializer. -/
def isTentative (d : VariableDecl) : Bool := d.storage == .external && !d.hasInitializer

/-- A declaration is tentative exactly when it does not define. -/
theorem not_defining (d : VariableDecl) :
    (!(d.hasInitializer || !(d.storage == .external))) = d.isTentative := by
  rw [isTentative, Bool.not_or, Bool.not_not, Bool.and_comm]

end VariableDecl

/-- The variable is as the declaration has it, with the type that is found in the table. -/
structure Variable.IsDeclared (v : Variable) (types : TypeTable) (d : VariableDecl) : Prop where
  name : v.name = d.name
  loc : v.loc = d.loc
  isExternal : v.isExternal = d.storage.isExternal
  type : types.lookup d.type = some v.type

namespace Write

/-- The declaration of a variable that the write comes from. -/
def declaration? : Write → Option VariableDecl
  | .variable d _ => some d
  | _ => none

end Write

/-- The variable is what its writes come to. -/
structure Variable.Records (v : Variable) (types : TypeTable) (ws : List Write) : Prop where
  first : ∃ d, (ws.filterMap Write.declaration?).head? = some d ∧ v.IsDeclared types d
  isTentative : v.isTentative = (ws.filterMap Write.declaration?).all (·.isTentative)
  symbol : v.symbol = lastSome? Write.symbol? ws

namespace Write

variable {types : TypeTable} {ws : List Write} {v : Variable} {w : Write}

/-- A write to a variable keeps the fields of its first declaration. -/
theorem isDeclared_changeVariable (w : Write) {d : VariableDecl} (h : v.IsDeclared types d) :
    (w.changeVariable v).IsDeclared types d := by
  cases w <;> exact { h with }

/-- A write sets the symbol of a variable if it brings one. -/
theorem symbol_changeVariable (w : Write) (v : Variable) :
    (w.changeVariable v).symbol = w.symbol?.or v.symbol := by
  cases w <;> rfl

/-- A variable stays tentative as long as each declaration is. -/
theorem isTentative_changeVariable (w : Write) (v : Variable) :
    (w.changeVariable v).isTentative =
      (v.isTentative && w.declaration?.toList.all (·.isTentative)) :=
  match w with
  | .variable d _ => by
    simp only [changeVariable, declaration?, Option.toList_some, List.all_cons, List.all_nil,
      Bool.and_true, d.not_defining]
  | .prototype _ _ | .definition _ _ _ | .symbol _ | .code _ | .rootScope _ | .parameter _ _ =>
    (Bool.and_true _).symm

/-- A variable that has just been declared records its one write. -/
theorem records_createVariable {d : Definition} (hw : w.Resolved types)
    (hd : w.creation? = some d) (hv : d = .variable v) : v.Records types [w] := by
  subst hv
  match w, hw, hd with
  | .variable d type, hw, rfl =>
    exact ⟨⟨d, rfl, rfl, rfl, rfl, hw⟩, (Bool.and_true _).symm, rfl⟩

/-- If a variable records the writes so far, then it records one more after that write. -/
theorem records_changeVariable (hv : v.Records types ws) (w : Write) :
    (w.changeVariable v).Records types (ws ++ [w]) := by
  constructor
  · obtain ⟨d, hd, hdeclared⟩ := hv.first
    refine ⟨d, ?_, isDeclared_changeVariable w hdeclared⟩
    rw [filterMap_concat, List.head?_append, hd, Option.some_or]
  · rw [isTentative_changeVariable, hv.isTentative, filterMap_concat, List.all_append]
  · rw [symbol_changeVariable, hv.symbol, lastSome?_concat]

/-- Any variable that the writes lead to records them. -/
theorem Written.recordsVariable {d? : Option Definition} (h : Written ws d?)
    (hws : ∀ w ∈ ws, w.Resolved types) (hv : d? = some (.variable v)) : v.Records types ws := by
  induction h generalizing v with
  | nil => cases hv
  | create hd => exact records_createVariable (hws _ List.mem_cons_self) hd (Option.some.inj hv)
  | @change ws d h w ih =>
    obtain old | f := d
    · cases hv
      exact records_changeVariable (ih (fun w' hw' => hws w' (List.mem_append_left _ hw')) rfl) w
    · cases hv

end Write

/-! ## Stamps -/

namespace Definitions

/-- No two stamps lead to one variable. -/
def OneStampEach (g : Definitions) : Prop :=
  ∀ id v stamp stamp', g.get? id = some (.variable v) → g.idByStamp? stamp = some id →
    g.idByStamp? stamp' = some id → stamp = stamp'

variable {g g' : Definitions} {ids ids' : IdSupply} {id : EntryId} {d d' : Definition}

theorem oneStampEach_empty : OneStampEach ∅ := by
  intro id v stamp stamp' hv
  rw [get?_empty] at hv
  cases hv

/-- To give a stamp to an entry gives no stamp to another. -/
theorem idByStamp?_of_addStamp {stamp stamp' : Stamp} {id' : EntryId} (hne : id ≠ id')
    (h : (g.addStamp stamp id).idByStamp? stamp' = some id') : g.idByStamp? stamp' = some id' := by
  rw [idByStamp?_addStamp] at h
  split at h
  · exact absurd (Option.some.inj h) hne
  · exact h

namespace OneStampEach

variable (h : OneStampEach g)
include h

/-- A function may be put anywhere, since only a variable has but one stamp. -/
theorem putFunction (id : EntryId) (f : Function) : OneStampEach (g.put id (.function f)) := by
  intro id' v stamp stamp' hv hs hs'
  rw [get?_put] at hv
  split at hv
  · cases hv
  · exact h id' v stamp stamp' hv hs hs'

theorem putVariable {old : Variable} (hold : g.get? id = some (.variable old)) (v : Variable) :
    OneStampEach (g.put id (.variable v)) := by
  intro id' v' stamp stamp' hv hs hs'
  rw [get?_put] at hv
  split at hv
  · next heq => exact h id' old stamp stamp' (heq ▸ hold) hs hs'
  · exact h id' v' stamp stamp' hv hs hs'

/-- A function may get one more stamp. -/
theorem addStamp {f : Function} (hf : g.get? id = some (.function f)) (stamp : Stamp) :
    OneStampEach (g.addStamp stamp id) := by
  intro id' v s s' hv hs hs'
  have hne : id ≠ id' := by
    rintro rfl
    cases hf.symm.trans hv
  exact h id' v s s' hv (idByStamp?_of_addStamp hne hs) (idByStamp?_of_addStamp hne hs')

/-- No stamp leads to a new variable but the one that it comes with. -/
theorem addVariable (hg : Grounded ids g) (v : Variable) (stamp : Stamp) :
    OneStampEach ((g.put ids.fresh.1 (.variable v)).addStamp stamp ids.fresh.1) := by
  intro id v' s s' hv hs hs'
  rw [get?_addStamp, get?_put] at hv
  split at hv
  · next heq =>
    subst heq
    have honly {s : Stamp} (hs : ((g.put ids.fresh.1 (.variable v)).addStamp stamp
        ids.fresh.1).idByStamp? s = some ids.fresh.1) : stamp = s := by
      rw [idByStamp?_addStamp] at hs
      split at hs
      · assumption
      · obtain ⟨d, hd⟩ := hg.byStamp s _ hs
        exact absurd rfl (hg.ne_fresh hd)
    rw [← honly hs, ← honly hs']
  · next hne =>
    exact h id v' s s' hv (idByStamp?_of_addStamp hne hs) (idByStamp?_of_addStamp hne hs')

/-- To declare a variable gives a stamp to a new variable, or finds the stamp given before. -/
theorem declareVariable (hg : Grounded ids g) {stamp : Stamp} {v : Variable} {defining : Bool}
    (ho : g.declareVariable ids stamp v defining = .ok (id, ids', g')) : OneStampEach g' := by
  rcases declareVariable_cases ho with ⟨-, rfl, -, rfl⟩ | ⟨-, -, old, hold, rfl⟩
  · exact h.addVariable hg v stamp
  · exact h.putVariable hold _

theorem record (id : EntryId) (s : Signature) (f : Function) : OneStampEach (g.record id s f) :=
  (h.putFunction id f).addStamp (get?_put_self g id _) s.stamp

theorem declarePrototype {s : Signature}
    (ho : g.declarePrototype ids s = .ok (id, ids', g')) : OneStampEach g' := by
  rcases declarePrototype_cases ho with ⟨-, -, -, rfl⟩ | ⟨-, -, ⟨f, hf⟩, rfl⟩
  · exact h.record id s _
  · exact h.addStamp hf s.stamp

theorem defineFunction {s : Signature} {params : List Parameter}
    (ho : g.defineFunction ids s params = .ok (id, ids', g')) : OneStampEach g' := by
  rcases defineFunction_cases ho with ⟨-, -, -, rfl⟩ | ⟨-, -, old, -, rfl⟩
  · exact h.record id s _
  · exact h.record id s _

theorem withSymbol (hd : g.get? id = some d) (symbol : Symbol) :
    OneStampEach (g.put id (d.withSymbol symbol)) := by
  obtain v | f := d
  · exact h.putVariable hd _
  · exact h.putFunction id _

/-- An operation that fails has changed nothing. -/
theorem after {α : Type} {r : Except TableError (α × IdSupply × Definitions)}
    (hr : ∀ a ids' g', r = .ok (a, ids', g') → OneStampEach g') : OneStampEach (g.after r) := by
  rcases r with e | ⟨a, ids', g'⟩
  · exact h
  · exact hr a ids' g' rfl

end OneStampEach

end Definitions

namespace CompilationUnit

open Definitions (OneStampEach)

variable {σ : Type} {u : CompilationUnit}

theorem grounded_mention (hu : Coherent u) (file? : Option Name) (ts : List (TypeExpr Attr)) :
    Definitions.Grounded (u.mention file? ts).ids u.definitions :=
  hu.grounded.mono (TypeTable.internAll_interns ts (u.ids, u.types)).appends.allocated

/-- No operation gives a second stamp to a variable. -/
theorem oneStampEach_apply (hu : Coherent u) (h : OneStampEach u.definitions) (op : Operation σ) :
    OneStampEach (u.apply op).2.definitions := by
  cases hop : op.changesDefinitions with
  | false =>
    rw [(u.apply_frame hu.bases op).definitions hop]
    exact h
  | true =>
    cases op with
    | restart => exact Definitions.oneStampEach_empty
    | markPrinted => exact h
    | declare d =>
      rw [apply_snd u rfl]
      obtain d | d | d | d | d | d := d
      · rw [declare, declareVariable_apply, definitions_onDefinitions]
        exact h.after fun _ _ _ ho => h.declareVariable (grounded_mention hu _ _) ho
      · rw [declare, defineFunction_mention, definitions_onDefinitions]
        exact h.after fun _ _ _ ho => h.defineFunction ho
      · rw [declare, declarePrototype_mention, definitions_onDefinitions]
        exact h.after fun _ _ _ ho => h.declarePrototype ho
      all_goals cases hop
    | enterFunction function block =>
      rw [apply_snd u rfl]
      rcases u.enterFunction_cases function block with ⟨answer, hrun, -⟩ |
        ⟨id, f, x, ids, l, -, -, -, hrun⟩
      · rw [hrun]
        exact h
      · rw [hrun]
        exact h.putFunction id _
    | bindSymbol stamp symbol =>
      rw [apply_lift_snd u rfl]
      rcases u.bindSymbol_cases stamp symbol with hrun | ⟨id, d, -, hd, hrun⟩
      · rw [hrun]
        exact h
      · rw [hrun]
        exact h.withSymbol hd symbol
    | bindCode symbol code =>
      rw [apply_snd u rfl, bindCode, changeDefinitions, definitions_onDefinitions]
      refine h.after fun _ _ _ ho => ?_
      obtain ⟨⟨b, g⟩, ho, heq⟩ := Definitions.map_eq_ok_iff.1 ho
      cases heq
      rcases Definitions.bindCode_cases ho with rfl | ⟨id, f, -, rfl⟩
      · exact h
      · exact h.putFunction id _
    | bindParameter function param symbol =>
      rw [apply_snd u rfl, bindParameter, changeDefinitions, definitions_onDefinitions]
      refine h.after fun _ _ _ ho => ?_
      obtain ⟨⟨b, g⟩, ho, heq⟩ := Definitions.map_eq_ok_iff.1 ho
      cases heq
      rcases Definitions.bindParameter_cases ho with rfl | ⟨id, f, -, rfl⟩
      · exact h
      · exact h.putFunction id _
    | _ => cases hop

/-- After any run no variable has two stamps. -/
theorem run_oneStampEach (config : Config) (ops : List (Operation σ)) :
    OneStampEach (run config ops).definitions := by
  induction ops using List.reverseRecOn with
  | nil => exact Definitions.oneStampEach_empty
  | append_singleton ops op ih =>
    rw [run_concat]
    exact oneStampEach_apply (run_coherent config ops) ih op

/-! ## Declarations and bindings of one stamp -/

/-- The declaration of a variable under the stamp. -/
def Operation.declarationOf? (stamp : Stamp) : Operation σ → Option VariableDecl
  | .declare (.variable d) => if d.stamp = stamp then some d else none
  | _ => none

/-- An operation declares under a stamp if it declares a variable that has this stamp. -/
theorem declarationOf?_eq_some_iff {stamp : Stamp} {op : Operation σ} {d : VariableDecl} :
    op.declarationOf? stamp = some d ↔ op = .declare (.variable d) ∧ d.stamp = stamp := by
  unfold Operation.declarationOf?
  split
  · next d' =>
    rw [Option.ite_none_right_eq_some]
    constructor
    · rintro ⟨hstamp, ⟨⟩⟩
      exact ⟨rfl, hstamp⟩
    · rintro ⟨⟨⟩, hstamp⟩
      exact ⟨hstamp, rfl⟩
  · next hother => exact iff_of_false (fun h => nomatch h) fun h => hother d h.1

/-- The symbol that is bound to what the stamp leads to, if it leads anywhere. -/
def Occurrence.symbolOf? (stamp : Stamp) (o : Occurrence σ) : Option Symbol :=
  match o.op with
  | .bindSymbol stamp' symbol => if stamp' = stamp ∧ o.id?.isSome then some symbol else none
  | _ => none

/-- The id that a declaration answers is found by its stamp. -/
theorem idByStamp?_declareVariable {d : VariableDecl} {id : EntryId} {u' : CompilationUnit}
    (h : declare (.variable d) u = (.ok id, u')) : u'.definitions.idByStamp? d.stamp = some id := by
  rw [declare, declareVariable_apply] at h
  obtain ⟨ids, g, ho, rfl⟩ := onDefinitions_eq_ok_iff.1 h
  rcases Definitions.declareVariable_cases ho with ⟨-, -, -, rfl⟩ | ⟨hs, -, old, -, rfl⟩
  · dsimp only
    rw [Definitions.idByStamp?_addStamp, if_pos rfl]
  · exact hs

section Earlier

variable {o : Occurrence σ} {stamp : Stamp} {id : EntryId} {v : Variable}
  (hid : u.definitions.idByStamp? stamp = some id)
  (hv : u.definitions.get? id = some (.variable v))

include hid in
/-- A stamp that leads somewhere leads there ever after. -/
theorem Persists.eq_of_idByStamp? {u₀ : CompilationUnit} (h : u₀.Persists u) {id' : EntryId}
    (hid' : u₀.definitions.idByStamp? stamp = some id') : id' = id :=
  Option.some.inj ((h.definitions.stamps stamp id' hid').symm.trans hid)

include hid hv

/-- The declarations that reach the variable are those under its stamp, and none of them has
failed. -/
theorem declares_iff (hone : OneStampEach u.definitions) {u₀ : CompilationUnit} {d : VariableDecl}
    (ho : (⟨u₀, .declare (.variable d)⟩ : Occurrence σ).Precedes u) :
    (⟨u₀, .declare (.variable d)⟩ : Occurrence σ).id? = some id ↔ d.stamp = stamp := by
  rw [id?_declare]
  rcases hrun : declare (.variable d) u₀ with ⟨e | id', u'⟩
  · refine iff_of_false (fun h => nomatch h) ?_
    rintro rfl
    obtain ⟨⟨id', f, hid', hf, -⟩, -⟩ := (@declare_eq_error_iff σ _ _ _ ho.coherent _).1 hrun
    rw [ho.unit.eq_of_idByStamp? hid hid'] at hf
    obtain ⟨d', hd', hevolves⟩ := ho.unit.definitions.entries id _ hf
    cases hv.symm.trans hd'
    cases hevolves
  · have hafter : (⟨u₀, .declare (.variable d)⟩ : Occurrence σ).after = u' := by
      rw [Occurrence.after, apply_snd u₀ rfl, hrun]
    have hleads : u.definitions.idByStamp? d.stamp = some id' := by
      have hpersists := ho.after
      rw [hafter] at hpersists
      exact hpersists.definitions.stamps d.stamp id' (idByStamp?_declareVariable hrun)
    simp only [Except.toOption, Option.some.injEq]
    constructor
    · rintro rfl
      exact hone id' v d.stamp stamp hv hleads hid
    · rintro rfl
      exact Option.some.inj (hleads.symm.trans hid)

/-- In a run up to this state, the declarations written into the variable are those made under its
stamp. -/
theorem declaration?_write? (hone : OneStampEach u.definitions) (ho : o.Precedes u) :
    (o.write? id).bind Write.declaration? = o.op.declarationOf? stamp := by
  obtain ⟨u₀, op⟩ := o
  cases op with
  | declare d =>
    obtain d | d | d | d | d | d := d
    · have hwrite : (⟨u₀, .declare (.variable d)⟩ : Occurrence σ).write? id =
          if (⟨u₀, .declare (.variable d)⟩ : Occurrence σ).id? = some id then
            u₀.writeOf? (.variable d) else none := rfl
      rw [hwrite, if_congr (declares_iff hid hv hone ho) rfl rfl, Operation.declarationOf?]
      split <;> rfl
    all_goals
      simp only [Occurrence.write?, writeOf?, Operation.declarationOf?]
      split <;> rfl
  | enterFunction function block =>
    simp only [Occurrence.write?, Operation.declarationOf?]
    split
    · cases (⟨u₀, .enterFunction function block⟩ : Occurrence σ).id? <;> rfl
    · rfl
  | bindSymbol | bindCode | bindParameter =>
    simp only [Occurrence.write?, Operation.declarationOf?]
    split <;> rfl
  | _ => rfl

/-- The symbols that are bound to the variable are those that are bound to its stamp once there is
something to bind them to. -/
theorem binds_iff (hone : OneStampEach u.definitions) {u₀ : CompilationUnit} {stamp' : Stamp}
    {symbol : Symbol} (ho : (⟨u₀, .bindSymbol stamp' symbol⟩ : Occurrence σ).Precedes u) :
    u₀.definitions.idByStamp? stamp' = some id ↔
      stamp' = stamp ∧ (⟨u₀, .bindSymbol stamp' symbol⟩ : Occurrence σ).id?.isSome := by
  have hanswer : (⟨u₀, .bindSymbol stamp' symbol⟩ : Occurrence σ).id? =
      (bindSymbol stamp' symbol u₀).1 := by
    have happly : u₀.apply (.bindSymbol stamp' symbol : Operation σ) =
        (.ok (.id (bindSymbol stamp' symbol u₀).1), (bindSymbol stamp' symbol u₀).2) :=
      rfl
    rw [Occurrence.id?, happly]
  rw [hanswer]
  constructor
  · intro hs
    refine ⟨hone id v stamp' stamp hv (ho.unit.definitions.stamps stamp' id hs) hid, ?_⟩
    obtain ⟨d, hd⟩ := ho.coherent.grounded.byStamp stamp' id hs
    have hbind : u₀.definitions.bindSymbol stamp' symbol = some (id, _) :=
      Definitions.bindSymbol_eq_some_iff.2 ⟨d, hs, hd, rfl⟩
    rw [bindSymbol, hbind]
    rfl
  · rintro ⟨rfl, hsome⟩
    rcases u₀.bindSymbol_cases stamp' symbol with hrun | ⟨id', d, hs, -, -⟩
    · rw [hrun] at hsome
      cases hsome
    · rw [← ho.unit.eq_of_idByStamp? hid hs]
      exact hs

/-- In a run up to this state, the symbols written into the variable are those bound to its stamp.
-/
theorem symbol?_write? (hone : OneStampEach u.definitions) (ho : o.Precedes u) :
    (o.write? id).bind Write.symbol? = o.symbolOf? stamp := by
  obtain ⟨u₀, op⟩ := o
  cases op with
  | bindSymbol stamp' symbol =>
    have hwrite : (⟨u₀, .bindSymbol stamp' symbol⟩ : Occurrence σ).write? id =
        if u₀.definitions.idByStamp? stamp' = some id then some (.symbol symbol) else none := rfl
    rw [hwrite, if_congr (binds_iff hid hv hone ho) rfl rfl]
    simp only [Occurrence.symbolOf?]
    split <;> rfl
  | declare d =>
    obtain d | d | d | d | d | d := d
    all_goals
      simp only [Occurrence.write?, writeOf?, Occurrence.symbolOf?]
      split <;> rfl
  | enterFunction function block =>
    simp only [Occurrence.write?, Occurrence.symbolOf?]
    split
    · cases (⟨u₀, .enterFunction function block⟩ : Occurrence σ).id? <;> rfl
    · rfl
  | bindCode | bindParameter =>
    simp only [Occurrence.write?, Occurrence.symbolOf?]
    split <;> rfl
  | _ => rfl

end Earlier

/-! ## Runs -/

/-- The declarations of a variable under the stamp since the last restart, in order. -/
def declarationsOf (stamp : Stamp) (ops : List (Operation σ)) : List VariableDecl :=
  (sinceRestart ops).filterMap (·.declarationOf? stamp)

/-- Whatever the variable holds is told by the operations with its stamp. -/
structure VariableHistory (config : Config) (ops : List (Operation σ)) (stamp : Stamp)
    (id : EntryId) (v : Variable) : Prop where
  /-- All declarations under the stamp have answered with the one definition. -/
  answers : ∀ o ∈ occurrences config ops, (o.op.declarationOf? stamp).isSome → o.id? = some id
  /-- No other stamp leads to it. -/
  unique : ∀ stamp', (run config ops).definitions.idByStamp? stamp' = some id → stamp' = stamp
  first : ∃ d, (declarationsOf stamp ops).head? = some d ∧
    v.IsDeclared (run config ops).types d
  isTentative : v.isTentative = (declarationsOf stamp ops).all (·.isTentative)
  symbol : v.symbol = lastSome? (·.symbolOf? stamp) (occurrences config ops)

/-- After any run a variable that is found by a stamp has the history of that stamp. -/
theorem run_variableHistory (config : Config) (ops : List (Operation σ)) {stamp : Stamp}
    {id : EntryId} {v : Variable} (hid : (run config ops).definitions.idByStamp? stamp = some id)
    (hv : (run config ops).definitions.get? id = some (.variable v)) :
    VariableHistory config ops stamp id v := by
  have hone := run_oneStampEach config ops
  have hrecords := (run_written config ops id).recordsVariable (run_resolved config ops id) hv
  have hdecls : (writes id (occurrences config ops)).filterMap Write.declaration? =
      declarationsOf stamp ops := by
    rw [writes, List.filterMap_filterMap, declarationsOf, ← map_op_occurrences config ops,
      List.filterMap_map]
    exact List.filterMap_congr fun o ho =>
      declaration?_write? hid hv hone (run_occurrences config ops o ho)
  have hsymbols : lastSome? Write.symbol? (writes id (occurrences config ops)) =
      lastSome? (·.symbolOf? stamp) (occurrences config ops) := by
    rw [lastSome?, writes, List.filterMap_filterMap]
    refine congrArg List.getLast? (List.filterMap_congr fun o ho => ?_)
    exact symbol?_write? hid hv hone (run_occurrences config ops o ho)
  constructor
  · rintro ⟨u₀, op⟩ ho hsome
    obtain ⟨d, hd⟩ := Option.isSome_iff_exists.1 hsome
    obtain ⟨rfl, hstamp⟩ := declarationOf?_eq_some_iff.1 hd
    exact (declares_iff hid hv hone (run_occurrences config ops _ ho)).2 hstamp
  · exact fun stamp' hs => hone id v stamp' stamp hv hs hid
  · rw [← hdecls]
    exact hrecords.first
  · rw [← hdecls]
    exact hrecords.isTentative
  · rw [← hsymbols]
    exact hrecords.symbol

/-- After any run, a variable is the only definition of its stamp, and the stamp the only one of the
variable.  It is as it was first declared, with the symbol that was bound last, and tentative if all
its declarations are.  So it is tentative or not in whatever order the declarations come, and
whatever comes in between. -/
theorem run_variable_folds (config : Config) (ops : List (Operation σ)) {stamp : Stamp}
    {id : EntryId} {v : Variable} (hid : (run config ops).definitions.idByStamp? stamp = some id)
    (hv : (run config ops).definitions.get? id = some (.variable v)) :
    VariableHistory config ops stamp id v ∧
    ∀ (config' : Config) (ops' : List (Operation σ)) (id' : EntryId) (v' : Variable),
      (run config' ops').definitions.idByStamp? stamp = some id' →
      (run config' ops').definitions.get? id' = some (.variable v') →
      (declarationsOf stamp ops').Perm (declarationsOf stamp ops) →
        v'.isTentative = v.isTentative := by
  have hhistory := run_variableHistory config ops hid hv
  refine ⟨hhistory, fun config' ops' id' v' hid' hv' hperm => ?_⟩
  rw [(run_variableHistory config' ops' hid' hv').isTentative, hhistory.isTentative,
    hperm.all_eq]

/-- A function is refused under the stamp of the variable, and the declaration with an initializer
comes first or last. -/
theorem run_variable_folds_swap :
    let tentative : VariableDecl :=
      { name := ⟨7⟩, stamp := ⟨2⟩, storage := .external, type := .base [] (.integer .int),
        hasInitializer := false, loc := ⟨⟨1⟩, 3, 1⟩ }
    let defining : VariableDecl :=
      { tentative with hasInitializer := true, loc := ⟨⟨1⟩, 5, 1⟩ }
    let call : PrototypeDecl :=
      { name := ⟨8⟩, stamp := ⟨2⟩, storage := .external, type := .base [] .void,
        loc := ⟨⟨1⟩, 4, 1⟩ }
    let ops : List (Operation Unit) :=
      [.bindSymbol ⟨2⟩ ⟨9⟩, .declare (.variable tentative), .declare (.prototype call),
        .bindSymbol ⟨2⟩ ⟨4⟩, .declare (.variable defining)]
    let ops' : List (Operation Unit) :=
      [.declare (.variable defining), .declare (.variable tentative)]
    let v : Variable :=
      { name := ⟨7⟩, symbol := some ⟨4⟩, loc := ⟨⟨1⟩, 3, 1⟩, isTentative := false,
        isExternal := true, type := ⟨0⟩ }
    VariableHistory {} ops ⟨2⟩ ⟨1⟩ v ∧
      ∀ v', (run {} ops').definitions.get? ⟨1⟩ = some (.variable v') →
        v'.isTentative = false := by
  intro tentative defining call ops ops' v
  have hid : (run {} ops).definitions.idByStamp? ⟨2⟩ = some ⟨1⟩ := by decide +kernel
  have hid' : (run {} ops').definitions.idByStamp? ⟨2⟩ = some ⟨1⟩ := by decide +kernel
  have hv : (run {} ops).definitions.get? ⟨1⟩ = some (.variable v) := by decide +kernel
  obtain ⟨hhistory, hsame⟩ := run_variable_folds {} ops hid hv
  have hperm : (declarationsOf ⟨2⟩ ops').Perm (declarationsOf ⟨2⟩ ops) :=
    .swap tentative defining []
  exact ⟨hhistory, fun v' hv' => hsame {} ops' ⟨1⟩ v' hid' hv' hperm⟩

end CompilationUnit

end DebugInfo
