import Mathlib.Data.List.Basic
import DebugInfo.CompilationUnit.Operation
import DebugInfo.Proofs.Definitions.Cases
import DebugInfo.Proofs.Unit.Execution

/-!
# Attributes that are no qualifiers

Interning a type takes every attribute but `const` and `volatile` out of it first, so types that
differ in nothing else are interned alike.  A declaration is nearly as blind to these attributes as
interning is: what a unit makes of it depends on the types in it only once they are interned, and on
one question more.  Whether a function returns `void` is asked of the type as it is written, and
there a `void` with any attribute counts as something else.

So two declarations that become equal without their attributes do the same to a unit if they answer
this question alike, and need not if they do not (`declare_restrict_void`).
-/

namespace DebugInfo

/-! ## Taking attributes out -/

namespace TypeExpr

variable {α β γ : Type}

theorem mapAttrs_mapAttrs (f : List α → List β) (g : List β → List γ) (t : TypeExpr α) :
    (t.mapAttrs f).mapAttrs g = t.mapAttrs (g ∘ f) := by
  induction t using induct with
  | base as b => rfl
  | pointer as t ih => simp [mapAttrs, ih]
  | array as t n ih => simp [mapAttrs, ih]
  | function as r ps v ihr ihps =>
    simp only [mapAttrs, ihr, mapParamAttrs_eq_map, List.map_map, function.injEq, true_and,
      and_true, Function.comp_apply]
    exact List.map_congr_left fun p hp => by simp [ihps p hp]
  | unprototyped as r v ih => simp [mapAttrs, ih]

/-- The type without any attribute that is no qualifier, at every layer. -/
def stripped (t : TypeExpr Attr) : TypeExpr Attr := t.mapAttrs (·.filter Attr.isQualifier)

theorem filterMap_filter_isQualifier (as : List Attr) :
    (as.filter Attr.isQualifier).filterMap Attr.qualifier? = as.filterMap Attr.qualifier? := by
  rw [List.filterMap_filter]
  refine List.filterMap_congr fun a _ => ?_
  cases a <;> rfl

/-- Only `const` and `volatile` are left in a canonical type, so nothing is lost. -/
theorem canonical_stripped (t : TypeExpr Attr) : t.stripped.canonical = t.canonical := by
  rw [stripped, canonical, mapAttrs_mapAttrs, canonical]
  exact congrArg (t.mapAttrs ·) (funext filterMap_filter_isQualifier)

theorem canonical_eq_of_stripped_eq {t t' : TypeExpr Attr} (h : t.stripped = t'.stripped) :
    t.canonical = t'.canonical := by
  rw [← canonical_stripped, h, canonical_stripped]

end TypeExpr

/-! Changing every type in a declaration. -/

def ParameterDecl.mapType (f : TypeExpr Attr → TypeExpr Attr) (d : ParameterDecl) :
    ParameterDecl :=
  { d with type := f d.type }

def MemberDecl.mapType (f : TypeExpr Attr → TypeExpr Attr) (d : MemberDecl) : MemberDecl :=
  { d with type := f d.type }

def LocalDecl.mapType (f : TypeExpr Attr → TypeExpr Attr) (d : LocalDecl) : LocalDecl :=
  { d with type := f d.type }

namespace Declaration

def mapTypes (f : TypeExpr Attr → TypeExpr Attr) : Declaration → Declaration
  | .variable d => .variable { d with type := f d.type }
  | .function d =>
      .function { d with result := f d.result, params := d.params.map (·.mapType f) }
  | .prototype d => .prototype { d with type := f d.type }
  | .composite d => .composite { d with members := d.members.map (·.map (·.mapType f)) }
  | .enum d => .enum d
  | .typedef d => .typedef { d with type := f d.type }

def stripped (d : Declaration) : Declaration := d.mapTypes TypeExpr.stripped

/-- Whether a function is declared to return a `void` that is written without any attribute. -/
def returnsPlainVoid : Declaration → Bool
  | .function d => d.result.isPlainVoid
  | .prototype d => (CompilationUnit.prototypeResult d.type).1.isPlainVoid
  | _ => false

end Declaration

def LocalDecl.stripped (d : LocalDecl) : LocalDecl := d.mapType TypeExpr.stripped

namespace CompilationUnit

open TypeExpr

/-! ## Two declarations -/

/-- Types that are the same without their other attributes are interned alike. -/
theorem internType_congr {t t' : TypeExpr Attr} (h : t.stripped = t'.stripped) :
    internType t = internType t' := by
  funext u
  simp only [internType, TypeTable.intern, canonical_eq_of_stripped_eq h]

/-- The result of a function is looked at as it is written, so it also matters whether it is `void`
without any attribute. -/
theorem resultType_congr {t t' : TypeExpr Attr} (h : t.stripped = t'.stripped)
    (hvoid : t.isPlainVoid = t'.isPlainVoid) : resultType t = resultType t' := by
  simp only [resultType, hvoid, internType_congr h]

/-- Parameters are interned one after the other, so it is enough that they agree one by one. -/
theorem internParams_congr {ds ds' : List ParameterDecl}
    (h : ds.map (·.mapType TypeExpr.stripped) = ds'.map (·.mapType TypeExpr.stripped)) :
    internParams ds = internParams ds' := by
  induction ds generalizing ds' with
  | nil => rw [List.map_eq_nil_iff.1 h.symm]
  | cons d ds ih =>
    cases ds' with
    | nil => cases h
    | cons d' ds' =>
      obtain ⟨hd, hds⟩ := List.cons.inj h
      simp only [ParameterDecl.mapType, ParameterDecl.mk.injEq] at hd
      obtain ⟨hname, hstamp, htype⟩ := hd
      simp only [internParams, internType_congr htype, ih hds, hname, hstamp]

theorem internMembers_congr {ds ds' : List MemberDecl}
    (h : ds.map (·.mapType TypeExpr.stripped) = ds'.map (·.mapType TypeExpr.stripped)) :
    internMembers ds = internMembers ds' := by
  induction ds generalizing ds' with
  | nil => rw [List.map_eq_nil_iff.1 h.symm]
  | cons d ds ih =>
    cases ds' with
    | nil => cases h
    | cons d' ds' =>
      obtain ⟨hd, hds⟩ := List.cons.inj h
      simp only [MemberDecl.mapType, MemberDecl.mk.injEq] at hd
      obtain ⟨hname, htype, hwidth⟩ := hd
      simp only [internMembers, internType_congr htype, ih hds, hname, hwidth]

/-- What a prototype says besides its result is not touched. -/
theorem prototypeResult_stripped (t : TypeExpr Attr) :
    prototypeResult t.stripped = ((prototypeResult t).1.stripped, (prototypeResult t).2) := by
  cases t <;> rfl

theorem declareVariable_congr {d d' : VariableDecl}
    (h : { d with type := d.type.stripped } = { d' with type := d'.type.stripped }) :
    declareVariable d = declareVariable d' := by
  obtain ⟨name, stamp, storage, type, hasInitializer, loc⟩ := d
  obtain ⟨name', stamp', storage', type', hasInitializer', loc'⟩ := d'
  obtain ⟨rfl, rfl, rfl, htype, rfl, rfl⟩ := VariableDecl.mk.inj h
  simp only [declareVariable, internType_congr htype]

/-- The result of a prototype is looked at as it is written. -/
theorem declarePrototype_congr {d d' : PrototypeDecl}
    (h : { d with type := d.type.stripped } = { d' with type := d'.type.stripped })
    (hvoid : (prototypeResult d.type).1.isPlainVoid = (prototypeResult d'.type).1.isPlainVoid) :
    declarePrototype d = declarePrototype d' := by
  obtain ⟨name, stamp, storage, type, loc⟩ := d
  obtain ⟨name', stamp', storage', type', loc'⟩ := d'
  obtain ⟨rfl, rfl, rfl, htype, rfl⟩ := PrototypeDecl.mk.inj h
  have hresult := congrArg prototypeResult htype
  rw [prototypeResult_stripped, prototypeResult_stripped] at hresult
  obtain ⟨hresult, hvariadic⟩ := Prod.mk.inj hresult
  simp only [declarePrototype, resultType_congr hresult hvoid, hvariadic]

/-- The result of a definition is looked at as it is written. -/
theorem defineFunction_congr {d d' : FunctionDecl}
    (h : (Declaration.function d).stripped = (Declaration.function d').stripped)
    (hvoid : d.result.isPlainVoid = d'.result.isPlainVoid) :
    defineFunction d = defineFunction d' := by
  obtain ⟨name, stamp, storage, result, params, variadic, loc⟩ := d
  obtain ⟨name', stamp', storage', result', params', variadic', loc'⟩ := d'
  obtain ⟨rfl, rfl, rfl, hresult, hparams, rfl, rfl⟩ :=
    FunctionDecl.mk.inj (Declaration.function.inj h)
  simp only [defineFunction, resultType_congr hresult hvoid, internParams_congr hparams]

theorem defineComposite_congr {d d' : CompositeDecl}
    (h : (Declaration.composite d).stripped = (Declaration.composite d').stripped) :
    defineComposite d = defineComposite d' := by
  obtain ⟨kind, tag, stamp, loc, members, byteSize⟩ := d
  obtain ⟨kind', tag', stamp', loc', members', byteSize'⟩ := d'
  obtain ⟨rfl, rfl, rfl, rfl, hmembers, rfl⟩ := CompositeDecl.mk.inj (Declaration.composite.inj h)
  cases members <;> cases members'
  · rfl
  · cases hmembers
  · cases hmembers
  · simp only [defineComposite, internMembers_congr (Option.some.inj hmembers)]

theorem defineTypedef_congr {d d' : TypedefDecl}
    (h : { d with type := d.type.stripped } = { d' with type := d'.type.stripped }) :
    defineTypedef d = defineTypedef d' := by
  obtain ⟨name, stamp, type, loc⟩ := d
  obtain ⟨name', stamp', type', loc'⟩ := d'
  obtain ⟨rfl, rfl, htype, rfl⟩ := TypedefDecl.mk.inj h
  simp only [defineTypedef, internType_congr htype]

/-- Of the type of a local only the id is kept. -/
theorem declareLocal_congr {d d' : LocalDecl} (h : d.stripped = d'.stripped) :
    declareLocal d = declareLocal d' := by
  obtain ⟨name, stamp, storage, type, loc⟩ := d
  obtain ⟨name', stamp', storage', type', loc'⟩ := d'
  obtain ⟨rfl, rfl, rfl, htype, rfl⟩ := LocalDecl.mk.inj h
  simp only [declareLocal, internType_congr htype]

/-- Apart from the result of a function, attributes that are no qualifiers make no difference to a
declaration. -/
theorem declare_congr {d d' : Declaration} (h : d.stripped = d'.stripped)
    (hvoid : d.returnsPlainVoid = d'.returnsPlainVoid) : declare d = declare d' := by
  -- Declarations of two kinds are not equal without their attributes either.
  rcases d with d | d | d | d | d | d <;> rcases d' with d' | d' | d' | d' | d' | d' <;>
    try cases h
  · exact declareVariable_congr (Declaration.variable.inj h)
  · exact defineFunction_congr h hvoid
  · exact declarePrototype_congr (Declaration.prototype.inj h) hvoid
  · exact defineComposite_congr h
  · rfl
  · exact defineTypedef_congr (Declaration.typedef.inj h)

/-! ## The result of a function -/

/-- A function has no result if and only if it is written as returning `void` without any attribute.
-/
theorem resultType_eq_none_iff (t : TypeExpr Attr) (u : CompilationUnit) :
    (resultType t u).1 = none ↔ t.isPlainVoid = true := by
  unfold resultType
  split
  · next h => exact iff_of_true rfl h
  · next h => exact iff_of_false (Option.some_ne_none _) h

def signatureOf (d : FunctionDecl) (result : Option EntryId) : Signature :=
  { name := d.name, stamp := d.stamp, storage := d.storage, loc := d.loc, result,
    isVariadic := d.variadic }

/-- A function is recorded after its result and its parameters are interned. -/
theorem defineFunction_apply (d : FunctionDecl) (u : CompilationUnit) :
    let result := resultType d.result (addFile d.loc.file u).2
    let params := internParams d.params result.2
    defineFunction d u =
      onDefinitions (fun g ids => g.defineFunction ids (signatureOf d result.1) params.1) params.2 :=
  rfl

def prototypeSignatureOf (d : PrototypeDecl) (result : Option EntryId) : Signature :=
  { name := d.name, stamp := d.stamp, storage := d.storage, loc := d.loc, result,
    isVariadic := (prototypeResult d.type).2 }

/-- A prototype notes the file, interns the types and is then recorded under them. -/
theorem declarePrototype_apply (d : PrototypeDecl) (u : CompilationUnit) :
    let result := resultType (prototypeResult d.type).1 (addFile d.loc.file u).2
    declarePrototype d u =
      onDefinitions (fun g ids => g.declarePrototype ids (prototypeSignatureOf d result.1))
        result.2 :=
  rfl

/-- Interning a result leaves the definitions alone. -/
theorem definitions_resultType (t : TypeExpr Attr) (u : CompilationUnit) :
    (resultType t u).2.definitions = u.definitions := by
  unfold resultType
  split <;> rfl

/-- The function that is recorded has no result if and only if its declaration says `void`. -/
theorem result_defineFunction {d : FunctionDecl} {u u' : CompilationUnit} {id : EntryId}
    (h : defineFunction d u = (.ok id, u')) :
    ∃ f, u'.definitions.get? id = some (.function f) ∧
      (f.result = none ↔ d.result.isPlainVoid = true) := by
  have hresult := resultType_eq_none_iff d.result (addFile d.loc.file u).2
  rw [defineFunction_apply] at h
  obtain ⟨ids, g, hg, rfl⟩ := onDefinitions_eq_ok_iff.1 h
  rcases Definitions.defineFunction_cases hg with ⟨-, -, -, rfl⟩ | ⟨-, -, old, -, rfl⟩
  · exact ⟨_, Definitions.get?_put_self .., hresult⟩
  · exact ⟨_, Definitions.get?_put_self .., hresult⟩

/-- The same for a prototype under a stamp and a name that were not known. -/
theorem result_declarePrototype {d : PrototypeDecl} {u u' : CompilationUnit} {id : EntryId}
    (hstamp : u.definitions.idByStamp? d.stamp = none)
    (hname : u.definitions.idByName? d.name = none)
    (h : declarePrototype d u = (.ok id, u')) :
    ∃ f, u'.definitions.get? id = some (.function f) ∧
      (f.result = none ↔ (prototypeResult d.type).1.isPlainVoid = true) := by
  have hresult := resultType_eq_none_iff (prototypeResult d.type).1 (addFile d.loc.file u).2
  have hdefinitions := definitions_resultType (prototypeResult d.type).1 (addFile d.loc.file u).2
  rw [declarePrototype_apply] at h
  obtain ⟨ids, g, hg, rfl⟩ := onDefinitions_eq_ok_iff.1 h
  rw [hdefinitions] at hg
  rcases Definitions.declarePrototype_cases hg with ⟨-, -, -, rfl⟩ | ⟨hid, -⟩
  · exact ⟨_, Definitions.get?_put_self .., hresult⟩
  · rcases Definitions.idOf?_eq_some_iff.1 hid with hid | ⟨-, hid⟩
    · cases hstamp.symm.trans hid
    · cases hname.symm.trans hid

/-! ## What is visible -/

/-- Two declarations that become equal once every attribute but `const` and `volatile` is taken out
do the same to a unit if both or neither of them return a `void` written without attributes, and two
local declarations always do.  Written so, a `void` is what makes a function be recorded without a
result. -/
theorem declare_eq_of_stripped_eq (u : CompilationUnit) :
    (∀ d d' : Declaration, d.stripped = d'.stripped → d.returnsPlainVoid = d'.returnsPlainVoid →
      declare d u = declare d' u) ∧
    (∀ d d' : LocalDecl, d.stripped = d'.stripped → declareLocal d u = declareLocal d' u) ∧
    (∀ d id u', declare (.function d) u = (.ok id, u') →
      ∃ f, u'.definitions.get? id = some (.function f) ∧
        (f.result = none ↔ d.result.isPlainVoid = true)) ∧
    ∀ d id u', u.definitions.idByStamp? d.stamp = none → u.definitions.idByName? d.name = none →
      declare (.prototype d) u = (.ok id, u') →
        ∃ f, u'.definitions.get? id = some (.function f) ∧
          (f.result = none ↔ (prototypeResult d.type).1.isPlainVoid = true) :=
  ⟨fun _ _ h hvoid => congrFun (declare_congr h hvoid) u,
    fun _ _ h => congrFun (declareLocal_congr h) u,
    fun _ _ _ h => result_defineFunction h,
    fun _ _ _ hstamp hname h => result_declarePrototype hstamp hname h⟩

/-- A pointer to `restrict int` is a pointer to `int`, whichever of the two a parameter has. -/
theorem declare_eq_of_stripped_eq_restrict_param :
    let param (t : TypeExpr Attr) : ParameterDecl := ⟨⟨2⟩, ⟨3⟩, .pointer [] t⟩
    let decl (t : TypeExpr Attr) : FunctionDecl :=
      { name := ⟨1⟩, stamp := ⟨5⟩, storage := .static, result := .base [] .void,
        params := [param t], variadic := false, loc := ⟨⟨4⟩, 10, 1⟩ }
    let int (as : List Attr) : TypeExpr Attr := .base as (.integer .int)
    let u := new {}
    declare (.function (decl (int [.restrict]))) u = declare (.function (decl (int []))) u ∧
      ∃ f, (declare (.function (decl (int []))) u).2.definitions.get? ⟨2⟩ = some (.function f) ∧
        f.result = none := by
  intro param decl int u
  have hsame := (declare_eq_of_stripped_eq u).1 (.function (decl (int [.restrict])))
    (.function (decl (int []))) rfl rfl
  obtain ⟨f, hf, hresult⟩ :=
    (declare_eq_of_stripped_eq u).2.2.1 (decl (int [])) ⟨2⟩
      (declare (.function (decl (int []))) u).2 (Prod.ext (by decide +kernel) rfl)
  exact ⟨hsame, f, hf, hresult.2 rfl⟩

/-- Two prototypes that are the same but for a `restrict` on the `void` they return: one of them
adds a type, which the function it declares has as its result. -/
theorem declare_restrict_void :
    let decl (as : List Attr) : Declaration :=
      .prototype
        { name := ⟨1⟩, stamp := ⟨5⟩, storage := .external,
          type := .function [] (.base as .void) [] false, loc := ⟨⟨4⟩, 10, 1⟩ }
    let restricted := declare (decl [.restrict]) (new {})
    let plain := declare (decl []) (new {})
    (decl [.restrict]).stripped = (decl []).stripped ∧
      restricted.1 = .ok ⟨1⟩ ∧ plain.1 = .ok ⟨0⟩ ∧
      (restricted.2.definitions.functionAt ⟨1⟩).map (·.result) = .ok (some ⟨0⟩) ∧
      (plain.2.definitions.functionAt ⟨0⟩).map (·.result) = .ok none := by
  intro decl restricted plain
  refine ⟨rfl, ?_⟩
  decide +kernel

end CompilationUnit

end DebugInfo
