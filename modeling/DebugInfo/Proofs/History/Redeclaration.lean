import DebugInfo.Proofs.History.Completions
import DebugInfo.Proofs.Interning.Permutation

/-!
# Declaring something once more

A header is read more than once, and so are the declarations in it.  The second time, the file is
noted already and every type in the declaration is found, so the ids in it are those of the first
time.  Then there is nothing left to record: a variable is not tentative any more if this is what
the declaration ends, a function is what the declaration makes of it, and the descriptor of a type
is complete.  A declaration that was refused is refused for the same reason.
-/

namespace DebugInfo

/-! ## Tables -/

namespace Definitions

variable {α : Type} {g g' : Definitions} {ids ids' : IdSupply} {id : EntryId}

/-- Where the operation succeeds, to repeat it gives the same answer and changes nothing. -/
def Settles (f : Definitions → IdSupply → Except TableError (α × IdSupply × Definitions)) : Prop :=
  ∀ {g ids a ids' g'}, f g ids = .ok (a, ids', g') → f g' ids' = .ok (a, ids', g')

/-- A stamp that leads to an id already need not be added. -/
theorem addStamp_of_idByStamp? {stamp : Stamp} (h : g.idByStamp? stamp = some id) :
    g.addStamp stamp id = g := by
  rw [addStamp, insert_of_getElem? h]

/-- A name that leads to an id already need not be added. -/
theorem addName_of_idByName? {name : Name} (h : g.idByName? name = some id) :
    g.addName name id = g := by
  rw [addName, insert_of_getElem? h]

/-! What is recorded is found under its stamp and its name. -/

section Record

variable (g) (id : EntryId) (s : Signature) (f : Function)

theorem get?_record : (g.record id s f).get? id = some (.function f) :=
  get?_put_self g id (.function f)

theorem idByStamp?_record : (g.record id s f).idByStamp? s.stamp = some id := by
  rw [record_eq, idByStamp?_addName, idByStamp?_addStamp, if_pos rfl]

theorem idByName?_record : (g.record id s f).idByName? s.name = some id := by
  rw [record_eq, idByName?_addName, if_pos rfl]

/-- A function that was recorded is found. -/
theorem idOf?_record : (g.record id s f).idOf? s = some id :=
  idOf?_eq_some_iff.2 (.inl (idByStamp?_record g id s f))

/-- A function that is recorded already. -/
theorem record_record : (g.record id s f).record id s f = g.record id s f := by
  rw [record_eq (g.record id s f), put_of_get? (get?_record g id s f),
    addStamp_of_idByStamp? (idByStamp?_record g id s f),
    addName_of_idByName? (idByName?_record g id s f)]

end Record

/-- A variable that a declaration leaves tentative was declared so, and one that it does not leave
tentative has nothing more to end. -/
theorem settles_declareVariable {stamp : Stamp} {v : Variable} {defining : Bool}
    (hv : v.isTentative = !defining) :
    Settles fun g ids => g.declareVariable ids stamp v defining := by
  intro g ids id ids' g' h
  obtain ⟨hstamp, old, hold, hended⟩ : g'.idByStamp? stamp = some id ∧
      ∃ old, g'.get? id = some (.variable old) ∧
        (old.isTentative && !defining) = old.isTentative := by
    rcases declareVariable_cases h with ⟨-, -, -, rfl⟩ | ⟨hs, -, old, -, rfl⟩
    · refine ⟨by rw [idByStamp?_addStamp, if_pos rfl], v, get?_put_self g id _, ?_⟩
      rw [hv, Bool.and_self]
    · exact ⟨hs, _, get?_put_self g id _, by rw [Bool.and_assoc, Bool.and_self]⟩
  simp only [declareVariable, hstamp, variableAt_eq_ok_iff.2 hold, Except.map, hended]
  rw [put_of_get? hold]

/-- A prototype that comes again finds its function, and its stamp leads there already. -/
theorem settles_declarePrototype (s : Signature) :
    Settles fun g ids => g.declarePrototype ids s := by
  intro g ids id ids' g' h
  obtain ⟨hstamp, f, hf⟩ : g'.idByStamp? s.stamp = some id ∧
      ∃ f, g'.get? id = some (.function f) := by
    rcases declarePrototype_cases h with ⟨-, -, -, rfl⟩ | ⟨-, -, ⟨f, hf⟩, rfl⟩
    · exact ⟨idByStamp?_record g id s _, _, get?_record g id s _⟩
    · exact ⟨by rw [idByStamp?_addStamp, if_pos rfl], f, hf⟩
  have hid : g'.idOf? s = some id := idOf?_eq_some_iff.2 (.inl hstamp)
  simp only [declarePrototype, hid, functionAt_eq_ok_iff.2 hf, Except.map]
  rw [insertIfNew_eq_insert hid]
  exact congrArg (fun g => Except.ok (id, ids', g)) (addStamp_of_idByStamp? hstamp)

/-- What has been bound to a function is kept the first time, and there again the second time. -/
theorem settles_defineFunction (s : Signature) (params : List Parameter) :
    Settles fun g ids => g.defineFunction ids s params := by
  intro g ids id ids' g' h
  obtain ⟨f, rfl, hf⟩ : ∃ f, g' = g.record id s f ∧ redefined s params f = f := by
    rcases defineFunction_cases h with ⟨-, -, -, rfl⟩ | ⟨-, -, old, -, rfl⟩
    · exact ⟨_, rfl, rfl⟩
    · exact ⟨_, rfl, rfl⟩
  have hagain : (g.record id s f).defineFunction ids' s params =
      .ok (id, ids', (g.record id s f).record id s (redefined s params f)) := by
    rw [defineFunction, idOf?_record]
    simp only [functionAt_eq_ok_iff.2 (get?_record g id s f), Except.map]
    rfl
  rwa [hf, record_record] at hagain

end Definitions

namespace TypeTable

variable {types : TypeTable}

/-! What is stored of types follows from the ids that are found of them. -/

/-- There is one id for the result. -/
theorem ResultIs.unique {t : TypeExpr Attr} {r r' : Option EntryId} (h : types.ResultIs t r)
    (h' : types.ResultIs t r') : r = r' := by
  cases r <;> cases r' <;> simp_all [ResultIs]

/-- There is one list of parameters, as long as nothing is bound to them. -/
theorem ParamsAre.unique {ps ps' : List Parameter} {ds : List ParameterDecl}
    (h : types.ParamsAre ps ds) (h' : types.ParamsAre ps' ds) (hs : ∀ p ∈ ps, p.symbol = none)
    (hs' : ∀ p ∈ ps', p.symbol = none) : ps = ps' := by
  induction h generalizing ps' with
  | nil =>
    cases h'
    rfl
  | @cons p d ps ds hp _ ih =>
    cases h' with
    | @cons p' _ ps' _ hp' hps' =>
      obtain ⟨hsymbol, hs⟩ := List.forall_mem_cons.1 hs
      obtain ⟨hsymbol', hs'⟩ := List.forall_mem_cons.1 hs'
      have htype : p.type = p'.type := Option.some.inj (hp.2.2.symm.trans hp'.2.2)
      have heq : p = p' := by
        cases p
        cases p'
        simp_all
      rw [heq, ih hps' hs hs']

/-- There is one list of members. -/
theorem MembersAre.unique {ms ms' : List Member} {ds : List MemberDecl}
    (h : types.MembersAre ms ds) (h' : types.MembersAre ms' ds) : ms = ms' := by
  induction h generalizing ms' with
  | nil =>
    cases h'
    rfl
  | @cons m d ms ds hm _ ih =>
    cases h' with
    | @cons m' _ ms' _ hm' hms' =>
      have htype : m.type = m'.type := Option.some.inj (hm.1.symm.trans hm'.1)
      have heq : m = m' := by rw [hm.2, hm'.2, htype]
      rw [heq, ih hms']

/-- There is nothing to add to what a definition has completed. -/
theorem Completes.again {d : Declaration} {e e' e'' : Descriptor} (h : types.Completes d e e')
    (h' : types.Completes d e' e'') : e'' = e' := by
  have hsize (a b : Option Nat) : a.or (a.or b) = a.or b := by
    rw [← Option.or_assoc, Option.or_self]
  cases h with
  | forward hd c =>
    cases h' with
    | forward => simp [hsize]
    | composite hd' => cases hd.symm.trans hd'
  | composite hd hms c =>
    cases h' with
    | forward hd' => cases hd.symm.trans hd'
    | composite hd' hms' =>
      cases hd.symm.trans hd'
      simp [hsize, hms.unique hms']
  | enum d e =>
    cases h'
    simp [hsize]
  | typedef ht a =>
    cases h' with
    | typedef ht' =>
      cases ht.symm.trans ht'
      simp

end TypeTable

/-! ## Units -/

namespace CompilationUnit

open Definitions (Settles)
open TypeTable (Retains)

variable {u u' : CompilationUnit} {file : Name} {ts : List (TypeExpr Attr)} {d : Declaration}

/-- The file is noted, and the types are found. -/
structure Mentions (u : CompilationUnit) (file : Name) (ts : List (TypeExpr Attr)) : Prop where
  file : file ∈ u.sections.files
  types : ∀ t ∈ ts, u.types.Found t.canonical

/-- What was mentioned is mentioned. -/
theorem mentions_mention (u : CompilationUnit) (file : Name) (ts : List (TypeExpr Attr)) :
    (u.mention (some file) ts).Mentions file ts where
  file := Std.ExtTreeSet.mem_insert_self
  types _ ht := TypeTable.found_internAll ht (u.ids, u.types)

/-- Types that are there already need not be interned. -/
theorem internAll_of_found {s : TypeTable.State} (h : ∀ t ∈ ts, s.2.Found t.canonical) :
    TypeTable.internAll ts s = s := by
  induction ts with
  | nil => rfl
  | cons t ts ih =>
    obtain ⟨⟨id, hid⟩, hts⟩ := List.forall_mem_cons.1 h
    have hcons : TypeTable.internAll (t :: ts) s =
        TypeTable.internAll ts (TypeTable.intern t s).2 := rfl
    rw [hcons, TypeTable.intern_of_lookup hid, ih hts]

/-- To mention what is there already does nothing. -/
theorem Mentions.mention_eq (h : u.Mentions file ts) : u.mention (some file) ts = u := by
  have hfiles : u.sections.files.insert file = u.sections.files := by
    refine Std.ExtTreeSet.ext_mem fun file' => ?_
    rw [Std.ExtTreeSet.mem_insert, Std.compare_eq_iff_eq, or_iff_right_iff_imp]
    rintro rfl
    exact h.file
  have hinterned : TypeTable.internAll ts (u.ids, u.types) = (u.ids, u.types) :=
    internAll_of_found h.types
  have hsections : u.sections.addFile file = u.sections := by rw [Sections.addFile, hfiles]
  simp only [mention, hinterned, Option.elim, hsections]

/-! ## Variables and functions -/

/-- How a table records a declaration that comes with the ids of its types. -/
def recording? : Write →
    Option (Definitions → IdSupply → Except TableError (EntryId × IdSupply × Definitions))
  | .variable d type => some fun g ids => g.declareVariable ids d.stamp (variableOf d type)
      (d.hasInitializer || !(d.storage == .external))
  | .prototype d result => some fun g ids => g.declarePrototype ids (prototypeSignatureOf d result)
  | .definition d result params => some fun g ids =>
      g.defineFunction ids (signatureOf d result) params
  | _ => none

/-- Every declaration of a variable or a function settles in the definitions. -/
theorem settles_recording? {w : Write}
    {f : Definitions → IdSupply → Except TableError (EntryId × IdSupply × Definitions)}
    (hf : recording? w = some f) : Settles f := by
  obtain ⟨d, type⟩ | ⟨d, result⟩ | ⟨d, result, params⟩ | _ | _ | _ | _ := w
  · cases hf
    refine Definitions.settles_declareVariable ?_
    simp [variableOf, Bool.and_comm]
  · cases hf
    exact Definitions.settles_declarePrototype _
  · cases hf
    exact Definitions.settles_defineFunction _ params
  all_goals cases hf

/-- A declaration of a variable or a function mentions its file and its types, and then records what
it says. -/
theorem declare_eq_recording {w : Write} (hw : u.writeOf? d = some w) :
    ∃ f, recording? w = some f ∧
      declare d u = onDefinitions f (u.mention (some d.loc.file) d.types) := by
  obtain d | d | d | d | d | d := d
  · cases hw
    exact ⟨_, rfl, u.declareVariable_apply d⟩
  · cases hw
    exact ⟨_, rfl, u.defineFunction_mention d⟩
  · cases hw
    exact ⟨_, rfl, u.declarePrototype_mention d⟩
  all_goals cases hw

/-- The ids in a write of a declaration are those that are found. -/
theorem writeOf?_unique {types : TypeTable} {w w' : Write} (hw : u.writeOf? d = some w)
    (hw' : u'.writeOf? d = some w') (h : w.Resolved types) (h' : w'.Resolved types) : w' = w := by
  obtain d | d | d | d | d | d := d
  · cases hw
    cases hw'
    exact congrArg (Write.variable d) (Option.some.inj (h'.symm.trans h))
  · cases hw
    cases hw'
    obtain ⟨hresult, hparams, hsymbols⟩ := h
    obtain ⟨hresult', hparams', hsymbols'⟩ := h'
    exact congrArg₂ (Write.definition d) (hresult'.unique hresult)
      (hparams'.unique hparams hsymbols' hsymbols)
  · cases hw
    cases hw'
    exact congrArg (Write.prototype d) (h'.unique h)
  all_goals cases hw

/-- What settles in the table settles in the unit, where a refusal changes nothing at all. -/
theorem onDefinitions_again {α : Type}
    {f : Definitions → IdSupply → Except TableError (α × IdSupply × Definitions)} (hf : Settles f)
    (u : CompilationUnit) : onDefinitions f (onDefinitions f u).2 = onDefinitions f u := by
  cases hr : f u.definitions u.ids with
  | error e =>
    have herror : onDefinitions f u = (.error e, u) := onDefinitions_eq_error_iff.2 ⟨hr, rfl⟩
    rw [herror, herror]
  | ok r =>
    obtain ⟨a, ids, g⟩ := r
    have hok : onDefinitions f u = (.ok a, { u with ids, definitions := g }) :=
      onDefinitions_eq_ok_iff.2 ⟨ids, g, hr, rfl⟩
    rw [hok]
    exact onDefinitions_eq_ok_iff.2 ⟨ids, g, hf hr, rfl⟩

/-- A variable or a function that is declared again is declared already. -/
theorem declare_again_of_writeOf? {w : Write} (hw : u.writeOf? d = some w) :
    declare d (declare d u).2 = declare d u := by
  obtain ⟨f, hf, hdeclare⟩ := declare_eq_recording hw
  -- The table of types and the files are not changed any more after they are mentioned.
  have hmentions : (declare d u).2.Mentions d.loc.file d.types := by
    obtain ⟨ids, g, heq⟩ := (u.mention (some d.loc.file) d.types).onDefinitions_elsewhere f
    obtain ⟨hfile, htypes⟩ := u.mentions_mention d.loc.file d.types
    rw [hdeclare, heq]
    exact ⟨hfile, htypes⟩
  obtain ⟨w', hw'⟩ : ∃ w', (declare d u).2.writeOf? d = some w' := by
    cases d <;> first | exact ⟨_, rfl⟩ | cases hw
  obtain ⟨f', hf', hdeclare'⟩ := declare_eq_recording hw'
  rw [hmentions.mention_eq] at hdeclare'
  have hresolved' := resolved_writeOf? _ hw'
  rw [types_declare _ d hdeclare'] at hresolved'
  have hsame := writeOf?_unique hw hw' (u.resolved_writeOf? hw) hresolved'
  rw [hsame, hf] at hf'
  cases hf'
  rw [hdeclare', hdeclare, onDefinitions_again (settles_recording? hf)]

/-! ## Types -/

/-- A type that is defined again is defined already. -/
theorem declare_again_of_defined? (hu : Coherent u) {b : BaseType} (hd : d.defined? = some b) :
    declare d (declare d u).2 = declare d u := by
  obtain ⟨id, e, hid, hdeclare, hcompletes⟩ := declare_completes hu hd
  have hu' : Coherent ((u.mention (some d.loc.file) d.types).withDescriptor id e) := by
    have happly := hu.apply (.declare d : Operation Unit)
    rwa [apply_snd u rfl, hdeclare] at happly
  have hmentions : ((u.mention (some d.loc.file) d.types).withDescriptor id e).Mentions
      d.loc.file d.types := by
    obtain ⟨hfile, htypes⟩ := u.mentions_mention d.loc.file d.types
    exact ⟨hfile, htypes⟩
  obtain ⟨id', e', hid', hdeclare', hcompletes'⟩ := declare_completes hu' hd
  rw [hmentions.mention_eq] at hid' hdeclare' hcompletes'
  cases Option.some.inj (hid.symm.trans hid')
  have hget : ((u.mention (some d.loc.file) d.types).withDescriptor id e).types.get? id = some e :=
    TypeTable.get?_replace_self _ id e
  rw [hget, Option.getD_some] at hcompletes'
  have hretains : Retains (u.mention (some d.loc.file) d.types).types
      ((u.mention (some d.loc.file) d.types).withDescriptor id e).types := fun _ _ h => h
  have hsame := (hcompletes.mono hretains).again hcompletes'
  rw [hdeclare, hdeclare', hsame, withDescriptor_of_get? hget]

/-! ## Runs -/

variable {σ : Type}

/-- To declare something twice in a row is to declare it once.  The second answer is the first one,
whether it is an id or an error, and the second declaration changes nothing. -/
theorem run_redeclared (config : Config) (ops : List (Operation σ)) (d : Declaration) :
    declare d (declare d (run config ops)).2 = declare d (run config ops) := by
  cases hd : d.defined? with
  | some b => exact declare_again_of_defined? (run_coherent config ops) hd
  | none =>
    obtain ⟨w, hw⟩ : ∃ w, (run config ops).writeOf? d = some w := by
      cases d <;> first | exact ⟨_, rfl⟩ | cases hd
    exact declare_again_of_writeOf? hw

end CompilationUnit

end DebugInfo
