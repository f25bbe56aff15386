import DebugInfo.Proofs.History.Completions
import DebugInfo.Proofs.Interning.Leaves
import DebugInfo.Proofs.Isolation

/-!
# What is known of a type

A struct, union, enum or typedef name is known from the first type on that mentions it, and it is
declared where the first declaration of it says.  Apart from the definitions of it, only updates by
its id change what else is known.
-/

namespace DebugInfo

namespace TypeTable

/-- Where a type is declared, as far as it is known. -/
def loc? (types : TypeTable) (id : EntryId) : Option SourceLoc := (types.get? id).bind (·.loc)

/-- Interning says nothing about where a type is declared. -/
theorem Interns.loc? {ts : List CanonicalType} {s s' : State} (h : Interns ts s s') (hs : Sound s)
    (id : EntryId) : s'.2.loc? id = s.2.loc? id := by
  induction h with
  | refl => rfl
  | @add s' t d h _ _ hd ih =>
    rw [← ih, TypeTable.loc?, TypeTable.loc?, get?_add]
    split
    · next heq =>
      have hnone : s'.2.get? id = none :=
        Option.eq_none_iff_forall_ne_some.2 fun e he => (hs.interns h).1.ne_of_get? t d he heq
      rw [hnone, Option.bind_some, hd.loc_eq_none]
      rfl
    · rfl

/-- To replace a descriptor changes the location of that entry alone. -/
theorem loc?_replace (types : TypeTable) (id id' : EntryId) (d : Descriptor) :
    (types.replace id d).loc? id' = if id = id' then d.loc else types.loc? id' := by
  rw [loc?, get?_replace]
  split <;> rfl

end TypeTable

/-- No type definition defines `void`. -/
theorem Declaration.ne_void_of_defined? {d : Declaration} {b : BaseType}
    (hd : d.defined? = some b) : b ≠ .void := by
  rintro rfl
  cases d <;> cases hd

theorem Declaration.definesType_iff {d : Declaration} :
    d.definesType = true ↔ ∃ b, d.defined? = some b := by
  cases d <;> simp [definesType, defined?]

namespace CompilationUnit

variable {σ : Type}

/-! ## One operation -/

def Operation.changesTypes : Operation σ → Bool
  | .restart _ | .internType _ | .updateType _ _ | .declare _ | .declareLocal _ => true
  | _ => false

namespace Occurrence

/-- The types that the operation has interned. -/
def interned (o : Occurrence σ) : List (TypeExpr Attr) :=
  match o.op with
  | .declareLocal d => if o.unit.tracksLocals then [d.type] else []
  | op => op.types

/-- The location that the operation has attached to the type under the id. -/
def attached? (o : Occurrence σ) (id : EntryId) : Option SourceLoc :=
  match o.op with
  | .updateType id' update => if id' = id ∧ (o.unit.apply o.op).1.isOk then update.loc? else none
  | .declare d => if d.definesType ∧ o.id? = some id then some d.loc else none
  | _ => none

/-- After the operation the types that it has interned are there, and a location that it has
attached is kept if it is the first. -/
structure Retypes (o : Occurrence σ) : Prop where
  keyed : ∃ descriptors,
    o.after.types = { (o.unit.mention none o.interned).types with descriptors }
  loc? : ∀ id, o.after.types.loc? id = (o.unit.types.loc? id).or (o.attached? id)

end Occurrence

variable {u : CompilationUnit}

/-- An operation that is not about types leaves the table of types alone. -/
theorem types_apply {op : Operation σ} (hop : op.changesTypes = false) :
    (u.apply op).2.types = u.types := by
  cases op with
  | freshId | setSectionStart | setSectionStop | enumerate | addLabel | markPrinted => rfl
  | enterFunction function block =>
    obtain ⟨ids, locals, definitions, heq⟩ := u.enterFunction_elsewhere function block
    rw [apply_snd u rfl, heq]
  | enterChild function parent block =>
    obtain ⟨ids, locals, heq⟩ := u.enterChild_elsewhere function parent block
    rw [apply_snd u rfl, heq]
  | attach function stamp block =>
    obtain ⟨ids, locals, heq⟩ := u.attach_elsewhere function stamp block
    rw [apply_snd u rfl, heq]
  | bindSymbol stamp symbol =>
    obtain ⟨definitions, locals, heq⟩ := u.bindSymbol_elsewhere stamp symbol
    rw [apply_lift_snd u rfl, heq]
  | bindLocal stamp symbol =>
    obtain ⟨locals, heq⟩ := u.bindLocal_elsewhere stamp symbol
    rw [apply_lift_snd u rfl, heq]
  | bindCode symbol code =>
    obtain ⟨ids, definitions, heq⟩ := u.changeDefinitions_elsewhere (·.bindCode symbol code)
    rw [apply_snd u rfl, bindCode, heq]
  | bindParameter function param symbol =>
    obtain ⟨ids, definitions, heq⟩ :=
      u.changeDefinitions_elsewhere (·.bindParameter function param symbol)
    rw [apply_snd u rfl, bindParameter, heq]
  | emit e =>
    obtain ⟨lifetimes, heq⟩ := u.emit_elsewhere e
    have happly : (u.apply (.emit e : Operation σ)).2 = (emit e u).2 := rfl
    rw [happly, heq]
  | restart | internType | updateType | declare | declareLocal => cases hop

/-- Interning attaches no location. -/
theorem Occurrence.retypes_of_eq {o : Occurrence σ} (hu : Coherent o.unit)
    (htypes : o.after.types = (o.unit.mention none o.interned).types)
    (hattached : ∀ id, o.attached? id = none) : o.Retypes where
  keyed := ⟨_, htypes⟩
  loc? id := by
    rw [htypes, hattached, Option.or_none]
    exact (TypeTable.internAll_interns o.interned _).loc? hu.orderly.types id

/-- It is enough to look at the one descriptor that is replaced after the types have been interned.
-/
theorem Occurrence.retypes_of_replace {o : Occurrence σ} (hu : Coherent o.unit) (id : EntryId)
    (d : Descriptor) (htypes : o.after.types = (o.unit.mention none o.interned).types.replace id d)
    (hloc : d.loc = (o.unit.types.loc? id).or (o.attached? id))
    (hothers : ∀ id', id ≠ id' → o.attached? id' = none) : o.Retypes where
  keyed := ⟨_, htypes⟩
  loc? id' := by
    rw [htypes, TypeTable.loc?_replace]
    split
    · next heq => rw [← heq, hloc]
    · next hne =>
      rw [hothers id' hne, Option.or_none]
      exact (TypeTable.internAll_interns o.interned _).loc? hu.orderly.types id'

/-- An update attaches its own location, and to its own entry only. -/
theorem retypes_updateType (hu : Coherent u) (id : EntryId) (update : TypeUpdate) :
    (⟨u, .updateType id update⟩ : Occurrence σ).Retypes := by
  have happly : u.apply (.updateType id update : Operation σ) =
      ((updateType id update u).1.map .flag, (updateType id update u).2) :=
    answer_apply (updateType id update) _ u
  rw [updateType_apply] at happly
  have hattached (id' : EntryId) : (⟨u, .updateType id update⟩ : Occurrence σ).attached? id' =
      if id = id' ∧ (u.apply (.updateType id update : Operation σ)).1.isOk then update.loc?
        else none := rfl
  cases hupdate : u.types.update id update with
  | error e =>
    rw [hupdate] at happly
    refine Occurrence.retypes_of_eq hu ?_ fun id' => ?_
    · rw [Occurrence.after, happly]
      rfl
    · rw [hattached, happly]
      exact if_neg fun h => Bool.noConfusion h.2
  | ok r =>
    obtain ⟨changed, types⟩ := r
    obtain ⟨d, d', hd, hd', rfl⟩ := TypeTable.exists_of_update_eq_ok hupdate
    rw [hupdate] at happly
    refine Occurrence.retypes_of_replace hu id d' ?_ ?_ fun id' hne => ?_
    · rw [Occurrence.after, happly]
      rfl
    · rw [hattached, happly, if_pos ⟨rfl, rfl⟩, TypeUpdate.loc_result? hd', TypeTable.loc?, hd,
        Option.bind_some]
    · exact if_neg fun h => hne h.1

/-- A type definition attaches its location to the type that it defines. -/
theorem retypes_definition (hu : Coherent u) {d : Declaration} (hd : d.definesType = true) :
    (⟨u, .declare d⟩ : Occurrence σ).Retypes := by
  obtain ⟨b, hb⟩ := Declaration.definesType_iff.1 hd
  obtain ⟨id, d', -, hdeclare, hcompletes⟩ := declare_completes hu hb
  have hattached (id' : EntryId) : (⟨u, .declare d⟩ : Occurrence σ).attached? id' =
      if id = id' then some d.loc else none := by
    rw [Occurrence.attached?, id?_declare, hdeclare]
    simp [hd, Except.toOption]
  have hold : ((u.types.get? id).getD (.ofBase b)).loc = u.types.loc? id := by
    rw [TypeTable.loc?]
    cases u.types.get? id with
    | none => exact Descriptor.loc_ofBase b
    | some e => rfl
  refine Occurrence.retypes_of_replace hu id d' ?_ ?_ fun id' hne => ?_
  · rw [after_declare, hdeclare]
    rfl
  · rw [hattached, if_pos rfl, hcompletes.loc, hold]
  · rw [hattached, if_neg hne]

/-- Every declaration attaches the location it should, if any. -/
theorem retypes_declare (hu : Coherent u) (d : Declaration) :
    (⟨u, .declare d⟩ : Occurrence σ).Retypes := by
  cases hd : d.definesType with
  | true => exact retypes_definition hu hd
  | false =>
    refine Occurrence.retypes_of_eq hu ?_ fun id => if_neg (by simp [hd])
    rw [after_declare]
    obtain d | d | d | d | d | d := d
    · exact (u.types_declare (.variable d) (declareVariable_apply u d)).trans rfl
    · exact (u.types_declare (.function d) (defineFunction_mention u d)).trans rfl
    · exact (u.types_declare (.prototype d) (declarePrototype_mention u d)).trans rfl
    all_goals cases hd

theorem retypes_declareLocal (hu : Coherent u) (d : LocalDecl) :
    (⟨u, .declareLocal d⟩ : Occurrence σ).Retypes := by
  refine Occurrence.retypes_of_eq hu ?_ fun _ => rfl
  have hafter : (⟨u, .declareLocal d⟩ : Occurrence σ).after = (declareLocal d u).2 :=
    apply_lift_snd u rfl
  rw [hafter, declareLocal_apply, Occurrence.interned]
  dsimp only
  split <;> rfl

/-- Every operation but a restart attaches the location it should, if any. -/
theorem Occurrence.retypes {o : Occurrence σ} (hop : o.op.isRestart = false)
    (hu : Coherent o.unit) : o.Retypes := by
  obtain ⟨u, op⟩ := o
  cases hchanges : op.changesTypes with
  | false =>
    refine retypes_of_eq hu ?_ ?_
    · refine (types_apply hchanges).trans ?_
      cases op <;> first | rfl | cases hchanges
    · cases op <;> first | exact fun _ => rfl | cases hchanges
  | true =>
    cases op with
    | internType t => exact retypes_of_eq hu rfl fun _ => rfl
    | updateType id update => exact retypes_updateType hu id update
    | declare d => exact retypes_declare hu d
    | declareLocal d => exact retypes_declareLocal hu d
    | restart => cases hop
    | _ => cases hchanges

/-! ## Runs -/

/-- The locations that have been attached to the type under an id, in order. -/
def attachments (id : EntryId) (os : List (Occurrence σ)) : List SourceLoc :=
  os.filterMap (·.attached? id)

/-- One more operation attaches one more location, or none. -/
theorem attachments_concat (id : EntryId) (os : List (Occurrence σ)) (o : Occurrence σ) :
    attachments id (os ++ [o]) = attachments id os ++ (o.attached? id).toList :=
  filterMap_concat _ os o

/-- A type is declared where the first location says that was ever attached to it. -/
theorem run_loc? (config : Config) (ops : List (Operation σ)) (id : EntryId) :
    (run config ops).types.loc? id = (attachments id (occurrences config ops)).head? := by
  refine occurrences_induction (P := fun os u => u.types.loc? id = (attachments id os).head?)
    ?_ ?_ config ops
  · intro u hu
    rw [hu.types]
    simp [TypeTable.loc?, TypeTable.get?, TypeTable.empty, attachments]
  · intro os o hop hu h
    rw [(o.retypes hop hu).loc? id, h, attachments_concat, List.head?_append]
    cases o.attached? id <;> rfl

/-- One of the types that were interned mentions the base type. -/
def Mentioned (mode : KeyMode) (b : BaseType) (os : List (Occurrence σ)) : Prop :=
  ∃ o ∈ os, ∃ t ∈ o.interned, t.Mentions mode b

/-- What is found in a unit: with every type the base types in it, and of these only those that were
mentioned. -/
structure FindsMentioned (os : List (Occurrence σ)) (u : CompilationUnit) : Prop where
  leaves : u.types.FindsLeaves
  found_iff : ∀ b, b ≠ .void →
    (u.types.Found (.base [] b) ↔ Mentioned u.types.mode b os)

/-- What was mentioned is still found after one more operation, and so is what this operation
mentions. -/
theorem FindsMentioned.after {os : List (Occurrence σ)} {o : Occurrence σ}
    (h : FindsMentioned os o.unit) (ho : o.Retypes) : FindsMentioned (os ++ [o]) o.after := by
  obtain ⟨descriptors, htypes⟩ := ho.keyed
  have hinterns := TypeTable.internAll_interns o.interned (o.unit.ids, o.unit.types)
  have hmode : (o.unit.mention none o.interned).types.mode = o.unit.types.mode := hinterns.mode
  constructor
  · rw [htypes]
    exact h.leaves.interns hinterns
  · intro b hvoid
    have hfound := TypeTable.FindsLeaves.found_internAll_iff (s := (o.unit.ids, o.unit.types))
      h.leaves o.interned hvoid
    rw [htypes]
    refine hfound.trans ?_
    rw [h.found_iff b hvoid]
    simp only [hmode, Mentioned, List.mem_append, List.mem_singleton, or_and_right, exists_or,
      exists_eq_left]

/-- After any run the base types that are found are those that were mentioned. -/
theorem run_findsMentioned (config : Config) (ops : List (Operation σ)) :
    FindsMentioned (occurrences config ops) (run config ops) := by
  refine occurrences_induction ?_ ?_ config ops
  · intro u hu
    constructor
    · rw [hu.types]
      exact TypeTable.findsLeaves_empty u.types.mode
    · intro b _
      rw [hu.types]
      simp [TypeTable.Found, TypeTable.Finds, TypeTable.find?, TypeTable.empty, Mentioned]
  · exact fun hop hu h => h.after (Occurrence.retypes hop hu)

/-- A struct, union, enum or typedef name is found if and only if it was mentioned. -/
theorem run_found_iff (config : Config) (ops : List (Operation σ)) {b : BaseType}
    (hvoid : b ≠ .void) :
    (∃ id, (run config ops).types.lookup (.base [] b) = some id) ↔
      Mentioned config.keys b (occurrences config ops) := by
  have hfound := (run_findsMentioned config ops).found_iff b hvoid
  rwa [mode_run] at hfound

section Definition

variable {id : EntryId} {b : BaseType} {d : Declaration}
  (hlookup : (u.mention (some d.loc.file) d.types).types.lookup (.base [] b) = some id)
include hlookup

/-- A type that was mentioned before keeps its id. -/
theorem Coherent.known (hu : Coherent u) {id' : EntryId}
    (hid' : u.types.lookup (.base [] b) = some id') :
    id' = id ∧ u.types.get? id = some ((u.types.get? id).getD (.ofBase b)) := by
  have hsame := u.retains_mention (some d.loc.file) d.types (.base [] b) id' hid'
  cases hsame.symm.trans hlookup
  obtain ⟨e, he, -⟩ := hu.orderly.types.base?_of_find? hu.bases hid'
  have he : u.types.get? id = some e := he
  rw [he]
  exact ⟨rfl, rfl⟩

/-- Another one gets a new id. -/
theorem Coherent.new (hu : Coherent u) (hnone : u.types.lookup (.base [] b) = none) :
    (∀ table, ¬ u.Holds table id) ∧ (u.types.get? id).getD (.ofBase b) = .ofBase b := by
  have hinterns := TypeTable.internAll_interns d.types (u.ids, u.types)
  have hmode : (u.mention (some d.loc.file) d.types).types.mode = u.types.mode := hinterns.mode
  rw [TypeTable.lookup, TypeTable.find?, hmode] at hlookup
  rcases hinterns.key_cases hlookup with hid | ⟨hnew, -⟩
  · cases hnone.symm.trans hid
  · have hnot (table : Table) : ¬ u.Holds table id := fun hheld =>
      Nat.not_lt.2 hnew (hu.orderly.space.allocated table id hheld)
    have hget : u.types.get? id = none :=
      Option.eq_none_iff_forall_ne_some.2 fun e he => hnot .types ⟨e, he⟩
    rw [hget]
    exact ⟨hnot, rfl⟩

end Definition

/-- A definition answers with the id that the type has been mentioned under, or else with a new one,
and completes the descriptor there.  The location is the first one that was ever attached, and no
other descriptor changes. -/
theorem run_definition_completes (config : Config) (ops : List (Operation σ)) {d : Declaration}
    {b : BaseType} (hd : d.defined? = some b) :
    let os := occurrences config ops
    let u := run config ops
    let u' := run config (ops ++ [.declare d])
    ∃ id e e', u.apply (.declare d : Operation σ) = (.ok (.id (some id)), u') ∧
      (Mentioned config.keys b os →
        u.types.lookup (.base [] b) = some id ∧ u.types.get? id = some e) ∧
      (¬ Mentioned config.keys b os →
        u.types.lookup (.base [] b) = none ∧ (∀ table, ¬ u.Holds table id) ∧ e = .ofBase b) ∧
      u'.types.lookup (.base [] b) = some id ∧ u'.types.get? id = some e' ∧
      u'.types.Completes d e e' ∧
      e'.loc = (attachments id (occurrences config (ops ++ [.declare d]))).head? ∧
      ∀ id' ≠ id, ∀ e, u.types.get? id' = some e → u'.types.get? id' = some e := by
  intro os u u'
  have hu : Coherent u := run_coherent config ops
  have hfound := run_found_iff config ops (Declaration.ne_void_of_defined? hd)
  obtain ⟨id, e', hlookup, hdeclare, hcompletes⟩ := declare_completes hu hd
  have happly : u.apply (.declare d : Operation σ) =
      (.ok (.id (some id)), (u.mention (some d.loc.file) d.types).withDescriptor id e') :=
    (answer_apply (declare d) _ u).trans (by rw [hdeclare]; rfl)
  have hu' : u' = (u.mention (some d.loc.file) d.types).withDescriptor id e' :=
    (run_concat config ops (.declare d)).trans (congrArg Prod.snd happly)
  have hget : u'.types.get? id = some e' := by
    rw [hu']
    exact TypeTable.get?_replace_self _ id e'
  refine ⟨id, (u.types.get? id).getD (.ofBase b), e', ?_, ?_, ?_, ?_, hget, ?_, ?_, ?_⟩
  · rw [happly, hu']
  · intro hmentioned
    obtain ⟨id', hid'⟩ := hfound.2 hmentioned
    obtain ⟨rfl, he⟩ := hu.known hlookup hid'
    exact ⟨hid', he⟩
  · intro hmentioned
    have hnone : u.types.lookup (.base [] b) = none :=
      Option.eq_none_iff_forall_ne_some.2 fun id' hid' => hmentioned (hfound.1 ⟨id', hid'⟩)
    exact ⟨hnone, hu.new hlookup hnone⟩
  · rw [hu']
    exact hlookup
  · have hretains : (u.mention (some d.loc.file) d.types).types.Retains u'.types := by
      rw [hu']
      exact fun _ _ h => h
    exact hcompletes.mono hretains
  · have hloc := run_loc? config (ops ++ [.declare d]) id
    rwa [TypeTable.loc?, hget] at hloc
  · intro id' hne e he
    have hinterns := TypeTable.internAll_interns d.types (u.ids, u.types)
    rw [hu']
    refine (TypeTable.get?_replace _ id id' e').trans ((if_neg hne.symm).trans ?_)
    exact (hu.orderly.types.enlarges hinterns).descriptor id' e he

/-- A variable points to a struct, which is then defined with a member that leads back to it.  The
stamps differ, but the keys do not see them. -/
theorem run_definition_completes_mentioned :
    let struct (stamp : Nat) : BaseType := .composite .struct ⟨7⟩ ⟨stamp⟩
    let var : VariableDecl :=
      { name := ⟨8⟩, stamp := ⟨2⟩, storage := .external, type := .pointer [] (.base [] (struct 1)),
        hasInitializer := false, loc := ⟨⟨1⟩, 3, 1⟩ }
    let next : MemberDecl :=
      { name := ⟨9⟩, type := .pointer [] (.base [] (struct 5)), width := none }
    let flags : MemberDecl := { name := ⟨10⟩, type := .base [] (.integer .int), width := some 3 }
    let body : CompositeDecl :=
      { kind := .struct, tag := ⟨7⟩, stamp := ⟨5⟩, loc := ⟨⟨1⟩, 4, 1⟩,
        members := some [next, flags], byteSize := some 16 }
    let config : Config := { keys := .spelling }
    let ops : List (Operation Unit) := [.declare (.variable var)]
    let u := run config (ops ++ [.declare (.composite body)])
    (Declaration.composite body).defined? = some (struct 5) ∧
      Mentioned .spelling (struct 5) (occurrences config ops) ∧
      ∃ ms, u.types.MembersAre ms [next, flags] ∧
        u.types.get? ⟨0⟩ = some (.composite
          { kind := .struct, tag := ⟨7⟩, loc := some ⟨⟨1⟩, 4, 1⟩, byteSize := some 16,
            isDefined := true, members := ms }) := by
  intro struct var next flags body config ops u
  have hdefined : (Declaration.composite body).defined? = some (struct 5) := rfl
  have hmentioned : Mentioned .spelling (struct 5) (occurrences config ops) :=
    ⟨_, List.mem_singleton_self _, _, List.mem_singleton_self _, struct 1,
      List.mem_singleton_self _, rfl⟩
  obtain ⟨id, e, e', -, hknown, -, -, hget, hcompletes, -, -⟩ :=
    run_definition_completes config ops hdefined
  obtain ⟨hlookup, he⟩ := hknown hmentioned
  have hid : (run config ops).types.lookup (.base [] (struct 5)) = some ⟨0⟩ := by
    decide +kernel
  cases hid.symm.trans hlookup
  have hforward : (run config ops).types.get? ⟨0⟩ =
      some (.composite { kind := .struct, tag := ⟨7⟩ }) := by
    decide +kernel
  cases hforward.symm.trans he
  refine ⟨hdefined, hmentioned, ?_⟩
  cases hcompletes with
  | forward hmembers => cases hmembers
  | @composite _ ds hmembers ms hms =>
    cases hmembers
    exact ⟨ms, hms, hget⟩

end CompilationUnit

end DebugInfo
