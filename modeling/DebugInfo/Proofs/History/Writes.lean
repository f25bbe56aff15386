import DebugInfo.Proofs.History.Occurrences
import DebugInfo.Proofs.Levels.Run

/-!
# What is written into a definition

A definition is written by declarations and bindings of several kinds, which reach it through
stamps, a name or a symbol.  The first one makes it, and each of the others replaces a part of it.
So it is what its writes, in the order in which they have occurred, come to.
-/

namespace DebugInfo

/-- A write of a definition.  A declaration comes with the ids of the types in it. -/
inductive Write where
  | variable (d : VariableDecl) (type : EntryId)
  | prototype (d : PrototypeDecl) (result : Option EntryId)
  | definition (d : FunctionDecl) (result : Option EntryId) (params : List Parameter)
  | symbol (symbol : Symbol)
  | code (code : CodeRange)
  | rootScope (scope : EntryId)
  /-- The symbol of the first parameter that has the stamp. -/
  | parameter (stamp : Stamp) (symbol : Symbol)

namespace Write

open CompilationUnit (variableOf prototypeSignatureOf signatureOf)

/-- The definition that a declaration makes where there is none. -/
def creation? : Write → Option Definition
  | .variable d type => some (.variable (variableOf d type))
  | .prototype d result => some (.function (prototypeSignatureOf d result).declared)
  | .definition d result params => some (.function ((signatureOf d result).defined params))
  | _ => none

/-- A variable is not tentative any more after a declaration that defines it. -/
def changeVariable : Write → Variable → Variable
  | .variable d _, v =>
      { v with
        isTentative := v.isTentative && !(d.hasInitializer || !(d.storage == .external)) }
  | .symbol s, v => { v with symbol := some s }
  | _, v => v

def changeFunction : Write → Function → Function
  | .definition d result params, f => Definitions.redefined (signatureOf d result) params f
  | .symbol s, f => { f with symbol := some s }
  | .code range, f => { f with code := some range }
  | .rootScope x, f => { f with rootScope := some x }
  | .parameter stamp s, f =>
      { f with
        params := updateFirst (·.stamp == stamp) (fun p => { p with symbol := some s }) f.params }
  | _, f => f

def change (w : Write) : Definition → Definition
  | .variable v => .variable (w.changeVariable v)
  | .function f => .function (w.changeFunction f)

def symbol? : Write → Option Symbol
  | .symbol s => some s
  | _ => none

/-- What is under an id before and after a write, or before and after something else. -/
inductive Effect : Option Definition → Option Write → Option Definition → Prop where
  | keep (d? : Option Definition) : Effect d? none d?
  | create {w : Write} {d : Definition} (h : w.creation? = some d) : Effect none (some w) (some d)
  | change (d : Definition) (w : Write) : Effect (some d) (some w) (some (w.change d))

/-- What is under an id after all writes so far. -/
inductive Written : List Write → Option Definition → Prop where
  | nil : Written [] none
  | create {w : Write} {d : Definition} (h : w.creation? = some d) : Written [w] (some d)
  | change {ws : List Write} {d : Definition} (h : Written ws (some d)) (w : Write) :
      Written (ws ++ [w]) (some (w.change d))

/-- One more effect on an entry adds its write to those before. -/
theorem Written.effect {ws : List Write} {d? d?' : Option Definition} {w? : Option Write}
    (h : Written ws d?) (h' : Effect d? w? d?') : Written (ws ++ w?.toList) d?' := by
  cases h' with
  | keep =>
    rw [Option.toList_none, List.append_nil]
    exact h
  | create hw =>
    cases h
    exact .create hw
  | change d w => exact h.change w

end Write

/-! ## One table -/

namespace Definitions

open Write (Effect)
open CompilationUnit (variableOf prototypeSignatureOf signatureOf)

variable {g g' : Definitions} {ids ids' : IdSupply} {id : EntryId} {w : Write} {d : Definition}

/-- To put an entry where there is none is a write that creates, and no other entry is affected. -/
theorem effect_create (hnew : g.get? id = none) (hw : w.creation? = some d) (id' : EntryId) :
    Effect (g.get? id') (if id = id' then some w else none) ((g.put id d).get? id') := by
  rw [get?_put]
  split
  · next heq =>
    rw [← heq, hnew]
    exact .create hw
  · exact .keep _

/-- To put a changed entry in its place is a write that changes, and no other entry is affected. -/
theorem effect_change (hd : g.get? id = some d) (w : Write) (id' : EntryId) :
    Effect (g.get? id') (if id = id' then some w else none) ((g.put id (w.change d)).get? id') := by
  rw [get?_put]
  split
  · next heq =>
    rw [← heq, hd]
    exact .change d w
  · exact .keep _

/-- To put an entry where it is already changes nothing. -/
theorem get?_put_same (hd : g.get? id = some d) : (g.put id d).get? = g.get? := by
  funext id'
  rw [get?_put]
  split
  · next heq => rw [← heq, hd]
  · rfl

/-- A write that leaves the definition as it is. -/
theorem effect_touch (hd : g.get? id = some d) (hw : w.change d = d) (id' : EntryId) :
    Effect (g.get? id') (if id = id' then some w else none) (g.get? id') := by
  split
  · next heq =>
    rw [← heq, hd]
    nth_rewrite 2 [← hw]
    exact .change d w
  · exact .keep _

section Declarations

variable (hnew : g.get? ids.fresh.1 = none)
include hnew

/-- A variable is written where it is declared, and no other entry is affected. -/
theorem effect_declareVariable {d : VariableDecl} {type : EntryId}
    (ho : g.declareVariable ids d.stamp (variableOf d type)
      (d.hasInitializer || !(d.storage == .external)) = .ok (id, ids', g')) (id' : EntryId) :
    Effect (g.get? id') (if id = id' then some (.variable d type) else none) (g'.get? id') := by
  rcases declareVariable_cases ho with ⟨-, rfl, rfl, rfl⟩ | ⟨-, rfl, old, hold, rfl⟩
  · exact effect_create hnew rfl id'
  · exact effect_change hold (.variable d type) id'

theorem effect_declarePrototype {d : PrototypeDecl} {result : Option EntryId}
    (ho : g.declarePrototype ids (prototypeSignatureOf d result) = .ok (id, ids', g'))
    (id' : EntryId) :
    Effect (g.get? id') (if id = id' then some (.prototype d result) else none) (g'.get? id') := by
  rcases declarePrototype_cases ho with ⟨-, rfl, rfl, rfl⟩ | ⟨-, rfl, ⟨f, hf⟩, rfl⟩
  · exact effect_create hnew rfl id'
  · exact effect_touch hf rfl id'

theorem effect_defineFunction {d : FunctionDecl} {result : Option EntryId}
    {params : List Parameter}
    (ho : g.defineFunction ids (signatureOf d result) params = .ok (id, ids', g'))
    (id' : EntryId) :
    Effect (g.get? id') (if id = id' then some (.definition d result params) else none)
      (g'.get? id') := by
  rcases defineFunction_cases ho with ⟨-, rfl, rfl, rfl⟩ | ⟨-, rfl, old, hold, rfl⟩
  · exact effect_create hnew rfl id'
  · exact effect_change hold (.definition d result params) id'

end Declarations

/-- A change of the function under an id is refused if there is a variable. -/
theorem effect_functionAt {α : Type} (hd : ∃ d, g.get? id = some d)
    {k : Function → α × IdSupply × Definitions}
    (hvariable : ∀ v, w.changeVariable v = v)
    (hfunction : ∀ f, g.get? id = some (.function f) → (k f).2.2.get? =
      (g.put id (.function (w.changeFunction f))).get?) (id' : EntryId) :
    Effect (g.get? id') (if id = id' then some w else none)
      ((g.after ((g.functionAt id).map k)).get? id') := by
  obtain ⟨v | f, hd⟩ := hd
  · have hafter : g.after ((g.functionAt id).map k) = g := by
      simp only [functionAt, hd, Except.map, after]
    rw [hafter]
    exact effect_touch hd (congrArg Definition.variable (hvariable v)) id'
  · have hafter : g.after ((g.functionAt id).map k) = (k f).2.2 := by
      simp only [functionAt, hd, Except.map, after]
    rw [hafter, hfunction f hd]
    exact effect_change hd w id'

end Definitions

/-! ## One operation -/

namespace CompilationUnit

open Write (Effect Written)

variable {σ : Type}

/-- What a declaration writes into the definition that it answers with. -/
def writeOf? (u : CompilationUnit) : Declaration → Option Write
  | .variable d => some (.variable d (internType d.type (addFile d.loc.file u).2).1)
  | .prototype d =>
      some (.prototype d (resultType (prototypeResult d.type).1 (addFile d.loc.file u).2).1)
  | .function d =>
      let result := resultType d.result (addFile d.loc.file u).2
      some (.definition d result.1 (internParams d.params result.2).1)
  | .composite _ | .enum _ | .typedef _ => none

/-- What the operation has written into the definition that is under the id. -/
def Occurrence.write? (o : Occurrence σ) (id : EntryId) : Option Write :=
  let g := o.unit.definitions
  match o.op with
  | .declare d => if o.id? = some id then o.unit.writeOf? d else none
  | .bindSymbol stamp symbol => if g.idByStamp? stamp = some id then some (.symbol symbol) else none
  | .bindCode symbol code => if g.idBySymbol? symbol = some id then some (.code code) else none
  | .bindParameter function stamp symbol =>
      if g.idByStamp? function = some id then some (.parameter stamp symbol) else none
  | .enterFunction function _ =>
      if g.idByStamp? function = some id then o.id?.map .rootScope else none
  | _ => none

def writes (id : EntryId) (os : List (Occurrence σ)) : List Write := os.filterMap (·.write? id)

/-- One more operation makes one more write to an entry, or none. -/
theorem writes_concat (id : EntryId) (os : List (Occurrence σ)) (o : Occurrence σ) :
    writes id (os ++ [o]) = writes id os ++ (o.write? id).toList :=
  filterMap_concat _ os o

variable {u : CompilationUnit}

/-- A declaration is about the id that it answers, if it answers one. -/
theorem id?_declare (d : Declaration) :
    (⟨u, .declare d⟩ : Occurrence σ).id? = (declare d u).1.toOption := by
  have happly : u.apply (.declare d : Operation σ) =
      ((declare d u).1.map fun id => .id (some id), (declare d u).2) :=
    answer_apply (declare d) _ u
  rw [Occurrence.id?, happly]
  rcases (declare d u).1 with e | id <;> rfl

/-- A declaration leaves the unit that it returns. -/
theorem after_declare (d : Declaration) :
    (⟨u, .declare d⟩ : Occurrence σ).after = (declare d u).2 :=
  apply_snd u rfl

/-- A declaration is recorded in the table once the types in it are interned. -/
theorem effect_onDefinitions (hu : Coherent u) (d : Declaration) {w : Write} {file? : Option Name}
    {ts : List (TypeExpr Attr)}
    {f : Definitions → IdSupply → Except TableError (EntryId × IdSupply × Definitions)}
    (hw : u.writeOf? d = some w)
    (hd : declare d u = onDefinitions f (u.mention file? ts))
    (hf : ∀ {ids id ids' g'}, u.definitions.get? ids.fresh.1 = none →
      f u.definitions ids = .ok (id, ids', g') → ∀ id',
        Effect (u.definitions.get? id') (if id = id' then some w else none) (g'.get? id'))
    (id : EntryId) :
    let o : Occurrence σ := ⟨u, .declare d⟩
    Effect (u.definitions.get? id) (o.write? id) (o.after.definitions.get? id) := by
  intro o
  have hnew : u.definitions.get? (u.mention file? ts).ids.fresh.1 = none :=
    EntryMap.getElem?_fresh (covers_mention hu file? ts)
  have hafter : o.after.definitions =
      u.definitions.after (f u.definitions (u.mention file? ts).ids) := by
    rw [after_declare, hd, definitions_onDefinitions]
    rfl
  have hwrite : o.write? id =
      if (onDefinitions f (u.mention file? ts)).1.toOption = some id then some w else none := by
    rw [← hd, ← hw, ← @id?_declare σ u d]
    rfl
  rw [hafter, hwrite]
  unfold onDefinitions
  have hsame : (u.mention file? ts).definitions = u.definitions := rfl
  rw [hsame]
  rcases hr : f u.definitions (u.mention file? ts).ids with e | ⟨id', ids', g'⟩
  · exact .keep _
  · have heffect := hf hnew hr id
    simpa only [Except.toOption, Option.some.injEq, Definitions.after] using heffect

/-- A declaration has the effect of its one write on the entry that it answers, and none on the
others. -/
theorem effect_declare (hu : Coherent u) (d : Declaration) (id : EntryId) :
    let o : Occurrence σ := ⟨u, .declare d⟩
    Effect (u.definitions.get? id) (o.write? id) (o.after.definitions.get? id) := by
  intro o
  cases hd : d.definesType with
  | true =>
    have hwrite : o.write? id = none := by
      cases d <;> first | exact ite_self none | cases hd
    have hdefinitions : o.after.definitions = u.definitions :=
      (u.apply_frame hu.bases (.declare d : Operation σ)).definitions
        (by simp [Operation.changesDefinitions, hd])
    rw [hwrite, hdefinitions]
    exact .keep _
  | false =>
    obtain d | d | d | d | d | d := d
    · exact effect_onDefinitions hu (.variable d) rfl (declareVariable_apply u d)
        (fun hnew ho => Definitions.effect_declareVariable hnew ho) id
    · exact effect_onDefinitions hu (.function d) rfl (defineFunction_mention u d)
        (fun hnew ho => Definitions.effect_defineFunction hnew ho) id
    · exact effect_onDefinitions hu (.prototype d) rfl (declarePrototype_mention u d)
        (fun hnew ho => Definitions.effect_declarePrototype hnew ho) id
    all_goals cases hd

/-- To bind a symbol writes it into the entry that has the stamp, and affects no other. -/
theorem effect_bindSymbol (hu : Coherent u) (stamp : Stamp) (symbol : Symbol) (id : EntryId) :
    let o : Occurrence σ := ⟨u, .bindSymbol stamp symbol⟩
    Effect (u.definitions.get? id) (o.write? id) (o.after.definitions.get? id) := by
  intro o
  have hafter : o.after.definitions =
      ((u.definitions.bindSymbol stamp symbol).map (·.2)).getD u.definitions := by
    have happly : o.after = (bindSymbol stamp symbol u).2 := apply_lift_snd u rfl
    rw [happly, definitions_bindSymbol]
  have hwrite : o.write? id =
      if u.definitions.idByStamp? stamp = some id then some (.symbol symbol) else none := rfl
  rw [hafter, hwrite]
  cases hs : u.definitions.idByStamp? stamp with
  | none =>
    have hbind : u.definitions.bindSymbol stamp symbol = none := by
      simp [Definitions.bindSymbol, hs]
    rw [hbind]
    exact .keep _
  | some id' =>
    obtain ⟨d, hd⟩ := hu.grounded.byStamp stamp id' hs
    have hbind : u.definitions.bindSymbol stamp symbol = some (id', _) :=
      Definitions.bindSymbol_eq_some_iff.2 ⟨d, hs, hd, rfl⟩
    have hchange : d.withSymbol symbol = (Write.symbol symbol).change d := by
      cases d <;> rfl
    rw [hbind, hchange]
    simp only [Option.some.injEq]
    exact Definitions.effect_change hd (.symbol symbol) id

/-- A change to the definitions that fails leaves them as they are. -/
theorem definitions_changeDefinitions (u : CompilationUnit)
    (f : Definitions → Except TableError (Bool × Definitions)) :
    (changeDefinitions f u).2.definitions =
      u.definitions.after ((f u.definitions).map fun r => (r.1, u.ids, r.2)) :=
  definitions_onDefinitions u _

/-- To bind code writes it into the function that has the symbol, and affects no other entry. -/
theorem effect_bindCode (hu : Coherent u) (symbol : Symbol) (code : CodeRange) (id : EntryId) :
    let o : Occurrence σ := ⟨u, .bindCode symbol code⟩
    Effect (u.definitions.get? id) (o.write? id) (o.after.definitions.get? id) := by
  intro o
  have hafter : o.after = (bindCode symbol code u).2 := apply_snd u rfl
  have hwrite : o.write? id =
      if u.definitions.idBySymbol? symbol = some id then some (.code code) else none := rfl
  rw [hafter, hwrite, bindCode, definitions_changeDefinitions, Definitions.bindCode]
  cases hs : u.definitions.idBySymbol? symbol with
  | none => exact .keep _
  | some id' =>
    simp only [Option.some.injEq, Definitions.map_map]
    exact Definitions.effect_functionAt (hu.grounded.bySymbol symbol id' hs) (fun _ => rfl)
      (fun _ _ => rfl) id

theorem effect_bindParameter (hu : Coherent u) (function stamp : Stamp) (symbol : Symbol)
    (id : EntryId) :
    let o : Occurrence σ := ⟨u, .bindParameter function stamp symbol⟩
    Effect (u.definitions.get? id) (o.write? id) (o.after.definitions.get? id) := by
  intro o
  have hafter : o.after = (bindParameter function stamp symbol u).2 := apply_snd u rfl
  have hwrite : o.write? id =
      if u.definitions.idByStamp? function = some id then some (.parameter stamp symbol)
        else none := rfl
  rw [hafter, hwrite, bindParameter, definitions_changeDefinitions, Definitions.bindParameter]
  cases hs : u.definitions.idByStamp? function with
  | none => exact .keep _
  | some id' =>
    simp only [Option.some.injEq, Definitions.map_map]
    refine Definitions.effect_functionAt (hu.grounded.byStamp function id' hs) (fun _ => rfl) ?_ id
    intro f hf
    cases hany : f.params.any (·.stamp == stamp) with
    | true => simp only [Function.comp_apply, hany, if_true, Write.changeFunction]
    | false =>
      -- Without such a parameter the function is put where it is.
      have hparams : updateFirst (·.stamp == stamp) (fun p => { p with symbol := some symbol })
          f.params = f.params :=
        updateFirst_of_forall_not fun p hp => by simpa using List.any_eq_false.1 hany p hp
      simp only [Function.comp_apply, hany, Write.changeFunction, hparams]
      exact (Definitions.get?_put_same hf).symm

/-- To enter a function writes its root scope into the entry that has the stamp, and affects no
other. -/
theorem effect_enterFunction (function : Stamp) (block : Block) (id : EntryId) :
    let o : Occurrence σ := ⟨u, .enterFunction function block⟩
    Effect (u.definitions.get? id) (o.write? id) (o.after.definitions.get? id) := by
  intro o
  have happly : u.apply (.enterFunction function block : Operation σ) =
      ((enterFunction function block u).1.map .id, (enterFunction function block u).2) :=
    answer_apply (enterFunction function block) _ u
  have hafter : o.after = (enterFunction function block u).2 := apply_snd u rfl
  have hid : o.id? = (enterFunction function block u).1.toOption.join := by
    rw [Occurrence.id?, happly]
    rcases (enterFunction function block u).1 with e | id? <;> rfl
  have hwrite : o.write? id =
      if u.definitions.idByStamp? function = some id then o.id?.map .rootScope else none := rfl
  rw [hwrite, hid, hafter]
  rcases u.enterFunction_cases function block with ⟨answer, hrun, hanswer⟩ |
    ⟨id', f, x, ids, l, hs, hf, -, hrun⟩
  · have hnone : answer.toOption.join = none := by
      rcases answer with e | _ | x
      · rfl
      · rfl
      · exact absurd rfl (hanswer x)
    rw [hrun, hnone, Option.map_none, ite_self]
    exact .keep _
  · rw [hrun, hs]
    simp only [Option.some.injEq]
    exact Definitions.effect_change hf (.rootScope x) id

/-- What an operation but a restart does to the definition under an id. -/
theorem Occurrence.effect {o : Occurrence σ} (hop : o.op.isRestart = false) (hu : Coherent o.unit)
    (id : EntryId) :
    Effect (o.unit.definitions.get? id) (o.write? id) (o.after.definitions.get? id) := by
  obtain ⟨u, op⟩ := o
  cases hchanges : op.changesDefinitions with
  | false =>
    have hwrite : (⟨u, op⟩ : Occurrence σ).write? id = none := by
      cases op with
      | declare d => cases d <;> first | exact ite_self none | cases hchanges
      | _ => first | rfl | cases hchanges
    rw [hwrite, Occurrence.after, (u.apply_frame hu.bases op).definitions hchanges]
    exact .keep _
  | true =>
    cases op with
    | declare d => exact effect_declare hu d id
    | enterFunction function block => exact effect_enterFunction function block id
    | bindSymbol stamp symbol => exact effect_bindSymbol hu stamp symbol id
    | bindCode symbol code => exact effect_bindCode hu symbol code id
    | bindParameter function stamp symbol => exact effect_bindParameter hu function stamp symbol id
    | markPrinted name => exact .keep _
    | restart => cases hop
    | _ => cases hchanges

/-! ## Runs -/

/-- After any run, what is under an id is what its writes since the last restart come to. -/
theorem run_written (config : Config) (ops : List (Operation σ)) (id : EntryId) :
    Written (writes id (occurrences config ops)) ((run config ops).definitions.get? id) := by
  refine occurrences_induction (P := fun os u => Written (writes id os) (u.definitions.get? id))
    ?_ ?_ config ops
  · intro u hu
    rw [hu.definitions, Definitions.get?_empty]
    exact .nil
  · intro os o hop hu h
    rw [writes_concat]
    exact h.effect (o.effect hop hu id)

end CompilationUnit

/-! ## Types -/

namespace TypeTable

/-- What is stored of the result of a function that is declared to return this type. -/
def ResultIs (types : TypeTable) (t : TypeExpr Attr) : Option EntryId → Prop
  | none => t.isPlainVoid = true
  | some id => t.isPlainVoid = false ∧ types.lookup t = some id

/-- What is stored of the parameters of a function, besides their symbols. -/
def ParamsAre (types : TypeTable) (params : List Parameter) (ds : List ParameterDecl) : Prop :=
  List.Forall₂ (fun p d => p.name = d.name ∧ p.stamp = d.stamp ∧ types.lookup d.type = some p.type)
    params ds

/-- What is found in the one table is found in the other. -/
def Retains (types types' : TypeTable) : Prop :=
  ∀ t id, types.lookup t = some id → types'.lookup t = some id

variable {types types' : TypeTable}

/-- A result is recorded rightly also in a table that has come to hold more. -/
theorem ResultIs.mono (h : types.Retains types') {t : TypeExpr Attr} {result : Option EntryId}
    (hresult : types.ResultIs t result) : types'.ResultIs t result := by
  cases result with
  | none => exact hresult
  | some id => exact ⟨hresult.1, h t id hresult.2⟩

theorem ParamsAre.mono (h : types.Retains types') {params : List Parameter}
    {ds : List ParameterDecl} (hparams : types.ParamsAre params ds) :
    types'.ParamsAre params ds :=
  List.Forall₂.imp (fun _ d hpd => ⟨hpd.1, hpd.2.1, h d.type _ hpd.2.2⟩) hparams

end TypeTable

/-- The ids in a write are those of the types that the declaration mentions, and its parameters are
not bound to symbols yet. -/
def Write.Resolved (types : TypeTable) : Write → Prop
  | .variable d type => types.lookup d.type = some type
  | .prototype d result => types.ResultIs (CompilationUnit.prototypeResult d.type).1 result
  | .definition d result params =>
      types.ResultIs d.result result ∧ types.ParamsAre params d.params ∧
        ∀ p ∈ params, p.symbol = none
  | _ => True

/-- The ids in a write mean the same types in a table that has come to hold more. -/
theorem Write.Resolved.mono {types types' : TypeTable} (h : types.Retains types') {w : Write}
    (hw : w.Resolved types) : w.Resolved types' :=
  match w with
  | .variable d type => h d.type type hw
  | .prototype _ _ => TypeTable.ResultIs.mono h hw
  | .definition _ _ _ => ⟨hw.1.mono h, hw.2.1.mono h, hw.2.2⟩
  | .symbol _ | .code _ | .rootScope _ | .parameter _ _ => trivial

namespace CompilationUnit

variable {σ : Type} (u : CompilationUnit)

/-- A type that has been interned is found under the id that was answered. -/
theorem lookup_internType (t : TypeExpr Attr) :
    (internType t u).2.types.lookup t = some (internType t u).1 :=
  (TypeTable.intern_interning t (u.ids, u.types)).2

/-- To intern a type loses none of those found before. -/
theorem retains_internType (t : TypeExpr Attr) : u.types.Retains (internType t u).2.types :=
  fun _ _ hid => (TypeTable.intern_interning t (u.ids, u.types)).1.finds hid

/-- The result that is recorded is the one that was declared. -/
theorem resultIs_resultType (t : TypeExpr Attr) :
    (resultType t u).2.types.ResultIs t (resultType t u).1 := by
  unfold resultType
  split
  · next h => exact h
  · next h => exact ⟨by simpa using h, u.lookup_internType t⟩

/-- To intern the parameters loses none of the types found before. -/
theorem retains_internParams (ds : List ParameterDecl) :
    u.types.Retains (internParams ds u).2.types := by
  induction ds generalizing u with
  | nil => exact fun _ _ hid => hid
  | cons d ds ih =>
    exact fun t id hid => ih (internType d.type u).2 t id (u.retains_internType d.type t id hid)

/-- The parameters that are recorded are those that were declared. -/
theorem paramsAre_internParams (ds : List ParameterDecl) :
    (internParams ds u).2.types.ParamsAre (internParams ds u).1 ds := by
  induction ds generalizing u with
  | nil => exact .nil
  | cons d ds ih =>
    have hd := (internType d.type u).2.retains_internParams ds d.type _ (u.lookup_internType d.type)
    exact .cons ⟨rfl, rfl, hd⟩ (ih (internType d.type u).2)

/-- No parameter has a symbol when it is recorded first. -/
theorem symbol_internParams (ds : List ParameterDecl) :
    ∀ p ∈ (internParams ds u).1, p.symbol = none := by
  induction ds generalizing u with
  | nil => exact fun _ hp => nomatch hp
  | cons d ds ih =>
    intro p hp
    rcases List.mem_cons.1 hp with rfl | hp
    · rfl
    · exact ih (internType d.type u).2 p hp

/-- Once the types are interned, they are left alone. -/
theorem types_declare (d : Declaration) {v : CompilationUnit}
    {f : Definitions → IdSupply → Except TableError (EntryId × IdSupply × Definitions)}
    (hd : declare d u = onDefinitions f v) : (declare d u).2.types = v.types := by
  obtain ⟨ids, definitions, heq⟩ := v.onDefinitions_elsewhere f
  rw [hd, heq]

/-- The ids in what a declaration writes are those of the declared types. -/
theorem resolved_writeOf? {d : Declaration} {w : Write} (h : u.writeOf? d = some w) :
    w.Resolved (declare d u).2.types := by
  obtain d | d | d | d | d | d := d
  · cases h
    rw [u.types_declare (.variable d) (declareVariable_apply u d)]
    exact lookup_internType _ d.type
  · cases h
    rw [u.types_declare (.function d) (defineFunction_apply d u)]
    refine ⟨?_, paramsAre_internParams _ d.params, symbol_internParams _ d.params⟩
    exact (resultIs_resultType _ d.result).mono (retains_internParams _ d.params)
  · cases h
    rw [u.types_declare (.prototype d) (declarePrototype_apply d u)]
    exact resultIs_resultType _ (prototypeResult d.type).1
  all_goals cases h

/-- The ids in every write mean the types that were written. -/
theorem Occurrence.resolved {o : Occurrence σ} {id : EntryId} {w : Write}
    (h : o.write? id = some w) : w.Resolved o.after.types := by
  obtain ⟨u, op⟩ := o
  cases op with
  | declare d =>
    obtain ⟨-, hw⟩ := Option.ite_none_right_eq_some.1 h
    rw [after_declare]
    exact u.resolved_writeOf? hw
  | bindSymbol | bindCode | bindParameter =>
    obtain ⟨-, hw⟩ := Option.ite_none_right_eq_some.1 h
    cases hw
    trivial
  | enterFunction =>
    obtain ⟨-, hw⟩ := Option.ite_none_right_eq_some.1 h
    obtain ⟨x, -, rfl⟩ := Option.map_eq_some_iff.1 hw
    trivial
  | _ => cases h

/-- The types that were mentioned are found as they were when the write occurred. -/
theorem run_resolved (config : Config) (ops : List (Operation σ)) (id : EntryId) :
    ∀ w ∈ writes id (occurrences config ops), w.Resolved (run config ops).types := by
  intro w hw
  obtain ⟨o, ho, hw⟩ := List.mem_filterMap.1 hw
  exact o.resolved hw |>.mono (run_occurrences config ops o ho).after.types.lookups

end CompilationUnit

end DebugInfo
