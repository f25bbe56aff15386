import DebugInfo.Proofs.Interning.Appending
import DebugInfo.Proofs.Unit.Execution

/-!
# What declarations are made of

A declaration notes a file, interns the types that it mentions, and then changes one table.  So what
no such step breaks is not broken by a declaration either, whether it fails or not.

A step may write down ids that earlier ones have answered with.  Therefore a condition on units
comes with a list of ids that are known to be those of types, and the list grows along the steps.
The only location that is written down is that of the declaration.
-/

namespace DebugInfo

/-- The location that an update may write into a descriptor. -/
def TypeUpdate.loc? : TypeUpdate → Option SourceLoc
  | .loc l => some l
  | _ => none

namespace CompilationUnit

/-- Conditions on units, one for each list of ids of types, that no step of a declaration breaks
where the locations that are written down satisfy `L`. -/
structure Stable (L : SourceLoc → Prop) (K : List EntryId → CompilationUnit → Prop) : Prop where
  forget : ∀ {known known' u}, K known u → known' ⊆ known → K known' u
  noteFile : ∀ {known u}, K known u → ∀ file, K known (addFile file u).2
  intern : ∀ {known u}, K known u → ∀ t, K ((internType t u).1 :: known) (internType t u).2
  update : ∀ {known u}, K known u → ∀ {id update changed types}, update.references ⊆ known →
    (∀ l, update.loc? = some l → L l) → u.types.update id update = .ok (changed, types) →
    K known { u with types }
  recordVariable : ∀ {known u}, K known u → ∀ {stamp v defining id ids g}, v.type ∈ known →
    L v.loc → v.symbol = none →
    u.definitions.declareVariable u.ids stamp v defining = .ok (id, ids, g) →
    K known { u with ids, definitions := g }
  recordPrototype : ∀ {known u}, K known u → ∀ {s id ids g}, s.result.toList ⊆ known →
    L s.loc → u.definitions.declarePrototype u.ids s = .ok (id, ids, g) →
    K known { u with ids, definitions := g }
  recordFunction : ∀ {known u}, K known u → ∀ {s params id ids g},
    s.result.toList ++ params.map (·.type) ⊆ known → L s.loc →
    u.definitions.defineFunction u.ids s params = .ok (id, ids, g) →
    K known { u with ids, definitions := g }
  recordLocal : ∀ {known u}, K known u → ∀ {stamp v id ids l}, v.type ∈ known →
    L v.loc → v.symbol = none → u.locals.declare u.ids stamp v = (id, ids, l) →
    K known { u with ids, locals := l }

variable {α : Type} {L : SourceLoc → Prop} (K : List EntryId → CompilationUnit → Prop)

/-- An operation that starts with known ids knows those that it has learned at the end. -/
abbrev Learns (known : List EntryId) (m : UnitM α) (learned : α → List EntryId) : Prop :=
  Ensures (K known) m (fun a => K (learned a ++ known)) (K [])

variable {K} (hK : Stable L K)
include hK

theorem Stable.nil {known : List EntryId} {u : CompilationUnit} (h : K known u) : K [] u :=
  hK.forget h (List.nil_subset _)

/-! ## Steps -/

section Steps

variable (known : List EntryId)

/-- To intern a type teaches its id. -/
theorem internType_learns (t : TypeExpr Attr) :
    Learns K known (liftM (internType t)) fun id => [id] :=
  .lift fun _ h => hK.intern h t

theorem resultType_learns (t : TypeExpr Attr) :
    Learns K known (liftM (resultType t)) fun result => result.toList := by
  refine .lift fun u h => ?_
  unfold resultType
  split
  · exact h
  · exact hK.intern h t

theorem internParams_learns (ds : List ParameterDecl) :
    Learns K known (liftM (internParams ds)) fun params => params.map (·.type) := by
  induction ds generalizing known with
  | nil => exact .lift fun _ h => h
  | cons d ds ih =>
    refine .lift_bind (internType_learns hK known d.type) fun type => ?_
    refine .lift_bind (ih ([type] ++ known)) fun params => .lift fun u h => hK.forget h ?_
    exact List.perm_middle.symm.subset

theorem internMembers_learns (ds : List MemberDecl) :
    Learns K known (liftM (internMembers ds)) fun ms => ms.map (·.type) := by
  induction ds generalizing known with
  | nil => exact .lift fun _ h => h
  | cons d ds ih =>
    refine .lift_bind (internType_learns hK known d.type) fun type => ?_
    refine .lift_bind (ih ([type] ++ known)) fun ms => .lift fun u h => hK.forget h ?_
    exact List.perm_middle.symm.subset

theorem addFile_learns (file : Name) : Learns K known (liftM (addFile file)) fun _ => [] :=
  .lift fun _ h => hK.noteFile h file

/-- An update may write ids that are known, and a location that is allowed. -/
theorem updateType_learns (id : EntryId) {update : TypeUpdate}
    (hrefs : update.references ⊆ known) (hloc : ∀ l, update.loc? = some l → L l) :
    Learns K known (updateType id update) fun _ => [] :=
  .updateType (fun _ file h => hK.noteFile h file) (fun _ _ _ h hu => hK.update h hrefs hloc hu)
    fun _ h => hK.nil h

/-- The location that comes with a declaration of a type. -/
theorem updateLoc_learns (id : EntryId) {l : SourceLoc} (hl : L l) :
    Learns K known (updateType id (.loc l)) fun _ => [] := by
  refine updateType_learns hK known id (List.nil_subset _) fun l' hl' => ?_
  cases hl'
  exact hl

end Steps

/-! ## Declarations -/

/-- What is stable is preserved where a variable is declared. -/
theorem declareVariable_stable (d : VariableDecl) (hd : L d.loc) :
    Preserves (K []) (declareVariable d) := by
  refine (addFile_learns hK [] d.loc.file).bind fun _ => ?_
  refine (internType_learns hK [] d.type).bind fun type => ?_
  refine .onDefinitions (fun u id ids g h ho => ?_) fun _ h => hK.nil h
  exact hK.nil (hK.recordVariable h List.mem_cons_self hd rfl ho)

theorem declarePrototype_stable (d : PrototypeDecl) (hd : L d.loc) :
    Preserves (K []) (declarePrototype d) := by
  refine (addFile_learns hK [] d.loc.file).bind fun _ => ?_
  refine (resultType_learns hK [] (prototypeResult d.type).1).bind fun result => ?_
  refine .onDefinitions (fun u id ids g h ho => ?_) fun _ h => hK.nil h
  exact hK.nil (hK.recordPrototype h (List.subset_append_left _ _) hd ho)

theorem defineFunction_stable (d : FunctionDecl) (hd : L d.loc) :
    Preserves (K []) (defineFunction d) := by
  refine (addFile_learns hK [] d.loc.file).bind fun _ => ?_
  refine (resultType_learns hK [] d.result).bind fun result => ?_
  refine (internParams_learns hK (result.toList ++ []) d.params).bind fun params => ?_
  refine .onDefinitions (fun u id ids g h ho => ?_) fun _ h => hK.nil h
  refine hK.nil (hK.recordFunction h ?_ hd ho)
  intro t ht
  rcases List.mem_append.1 ht with ht | ht
  · exact List.mem_append_right _ (List.mem_append_left _ ht)
  · exact List.mem_append_left _ ht

/-- The size of a composite is set, if it is known, and its id is the answer. -/
theorem setSize_stable (known : List EntryId) (id : EntryId) (byteSize : Option Nat) :
    Ensures (K known) (do
      if let some bytes := byteSize then
        let _ ← updateType id (.compositeSize bytes)
      return id) (fun _ => K []) (K []) := by
  cases byteSize with
  | none => exact .pure fun _ h => hK.nil h
  | some bytes =>
    refine (updateType_learns hK known id (List.nil_subset _) (by rintro _ ⟨⟩)).bind fun _ => ?_
    exact .pure fun _ h => hK.nil h

theorem defineComposite_stable (d : CompositeDecl) (hd : L d.loc) :
    Preserves (K []) (defineComposite d) := by
  obtain ⟨kind, tag, stamp, loc, members, byteSize⟩ := d
  refine (internType_learns hK [] _).bind fun id => ?_
  refine (updateLoc_learns hK [id] id hd).bind fun _ => ?_
  cases members with
  | none => exact setSize_stable hK [id] id byteSize
  | some decls =>
    refine (internMembers_learns hK [id] decls).bind fun ms => ?_
    have hrefs : (TypeUpdate.members ms).references ⊆ ms.map (·.type) ++ [id] :=
      List.subset_append_left _ _
    refine (updateType_learns hK _ id hrefs (by rintro _ ⟨⟩)).bind fun _ => ?_
    exact setSize_stable hK _ id byteSize

theorem defineEnum_stable (d : EnumDecl) (hd : L d.loc) : Preserves (K []) (defineEnum d) := by
  obtain ⟨tag, stamp, loc, enumerators, byteSize⟩ := d
  refine (internType_learns hK [] _).bind fun id => ?_
  refine (updateLoc_learns hK [id] id hd).bind fun _ => ?_
  refine (updateType_learns hK [id] id (List.nil_subset _) (by rintro _ ⟨⟩)).bind fun _ => ?_
  cases byteSize with
  | none => exact .pure fun _ h => hK.nil h
  | some bytes =>
    refine (updateType_learns hK [id] id (List.nil_subset _) (by rintro _ ⟨⟩)).bind fun _ => ?_
    exact .pure fun _ h => hK.nil h

/-- The target is interned before the typedef name leads to it. -/
theorem defineTypedef_stable (d : TypedefDecl) (hd : L d.loc) :
    Preserves (K []) (defineTypedef d) := by
  refine (internType_learns hK [] _).bind fun id => ?_
  refine (internType_learns hK [id] d.type).bind fun target => ?_
  refine (updateLoc_learns hK [target, id] id hd).bind fun _ => ?_
  have hrefs : (TypeUpdate.target target).references ⊆ [target, id] :=
    List.subset_append_left [target] [id]
  refine (updateType_learns hK _ id hrefs (by rintro _ ⟨⟩)).bind fun _ => ?_
  exact .pure fun _ h => hK.nil h

/-- What is stable is preserved by every declaration with an allowed location. -/
theorem declare_stable (d : Declaration) (hd : L d.loc) : Preserves (K []) (declare d) := by
  rcases d with d | d | d | d | d | d
  · exact declareVariable_stable hK d hd
  · exact defineFunction_stable hK d hd
  · exact declarePrototype_stable hK d hd
  · exact defineComposite_stable hK d hd
  · exact defineEnum_stable hK d hd
  · exact defineTypedef_stable hK d hd

theorem declareLocal_stable (d : LocalDecl) (hd : L d.loc) :
    Preserves (K []) (liftM (declareLocal d) : UnitM (Option EntryId)) := by
  refine .lift_bind (addFile_learns hK [] d.loc.file) fun _ => .lift_bind .get fun u => ?_
  split
  · refine .lift_bind (internType_learns hK [] d.type) fun type => .lift fun u h => ?_
    obtain ⟨⟨id, ids, l⟩, hl⟩ : ∃ r, u.locals.declare u.ids d.stamp
      { name := d.name, loc := d.loc, type, isStatic := d.storage == .static } = r := ⟨_, rfl⟩
    dsimp only
    rw [hl]
    exact hK.nil (hK.recordLocal h List.mem_cons_self hd rfl hl)
  · exact .pure fun _ h => h

end CompilationUnit

end DebugInfo
