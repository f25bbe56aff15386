import DebugInfo.Proofs.Interning.Kinds
import DebugInfo.Proofs.Links.Types
import DebugInfo.Proofs.Unit.Mentions

/-!
# Definitions of types

The definition of a struct, union, enum or typedef name interns the name and then updates what it
found, which is of the right kind however often the name was mentioned before.  So none of the
updates fails, and nothing but types is changed besides the files.
-/

namespace DebugInfo

/-- The declaration is of a struct, union, enum or typedef name. -/
def Declaration.definesType : Declaration → Bool
  | .variable _ | .function _ | .prototype _ => false
  | .composite _ | .enum _ | .typedef _ => true

namespace CompilationUnit

variable {α : Type}

/-- From a unit with `P`, the operation answers with `Q`, and it does not fail. -/
abbrev Succeeds (P : CompilationUnit → Prop) (m : UnitM α)
    (Q : α → CompilationUnit → Prop) : Prop :=
  Ensures P m Q fun _ => False

/-- A computation that succeeds has a result. -/
theorem Succeeds.exists_ok {P : CompilationUnit → Prop} {m : UnitM α}
    {Q : α → CompilationUnit → Prop} (h : Succeeds P m Q) {u : CompilationUnit} (hu : P u) :
    ∃ a u', m u = (.ok a, u') ∧ Q a u' := by
  have hpost := h u hu
  revert hpost
  rcases m u with ⟨e | a, u'⟩
  · exact False.elim
  · exact fun hpost => ⟨a, u', rfl, hpost⟩

/-- What is known before a definition: which unit it is, and what interning finds there. -/
abbrev Finding (u₀ u : CompilationUnit) : Prop := u = u₀ ∧ TypeTable.FindsBases (u.ids, u.types)

/-- A type is being completed: it is found under its id, and the unit differs from the one before in
ids and types only. -/
structure Completing (u₀ : CompilationUnit) (kind : String) (id : EntryId) (u : CompilationUnit) :
    Prop where
  below : id.raw < u.ids.allocated
  hasKind : u.types.HasKind id kind
  elsewhere : ∃ ids types, u = { u₀ with ids, types }

variable {u₀ : CompilationUnit} {kind : String} {id : EntryId}

/-- The type that is being completed stays there while others are interned. -/
theorem Completing.intern {u : CompilationUnit} (h : Completing u₀ kind id u)
    (t : TypeExpr Attr) : Completing u₀ kind id (internType t u).2 := by
  have happends := TypeTable.intern_appends t (u.ids, u.types)
  obtain ⟨d, hd, hkind⟩ := h.hasKind
  have hd' := (happends.get?_of_lt h.below).trans hd
  refine ⟨Nat.lt_of_lt_of_le h.below happends.allocated, ⟨d, hd', hkind⟩, ?_⟩
  obtain ⟨ids, types, rfl⟩ := h.elsewhere
  exact ⟨_, _, rfl⟩

/-! ## Steps -/

/-- To intern the type that is defined succeeds, and it is of its kind. -/
theorem internBase_succeeds (b : BaseType) :
    Succeeds (Finding u₀) (liftM (internType (.base [] b)))
      (Completing u₀ (Descriptor.ofBase b).kindName) := by
  refine .lift fun u hu => ?_
  obtain ⟨rfl, hbases⟩ := hu
  obtain ⟨hbelow, hkind⟩ := hbases.intern b
  exact ⟨hbelow, hkind, _, _, rfl⟩

theorem internType_succeeds (t : TypeExpr Attr) :
    Succeeds (Completing u₀ kind id) (liftM (internType t)) fun _ => Completing u₀ kind id :=
  .lift fun _ h => h.intern t

theorem internMembers_succeeds (ds : List MemberDecl) :
    Succeeds (Completing u₀ kind id) (liftM (internMembers ds)) fun _ => Completing u₀ kind id := by
  induction ds with
  | nil => exact .lift fun _ h => h
  | cons d ds ih =>
    refine .lift_bind (internType_succeeds d.type) fun _ => ?_
    exact .lift_bind ih fun _ => .lift fun _ h => h

/-- An update of its own kind succeeds. -/
theorem updateType_succeeds {update : TypeUpdate} (hkind : kind ∈ update.kinds) :
    Succeeds (Completing u₀ kind id) (updateType id update)
      fun _ => Completing (u₀.mention update.file? []) kind id := by
  intro u h
  obtain ⟨changed, types, hupdate⟩ := TypeTable.exists_update_eq_ok h.hasKind hkind
  rw [updateType_apply, hupdate]
  refine ⟨h.below, ?_, ?_⟩
  · obtain ⟨d, d', hd, hd', rfl⟩ := TypeTable.exists_of_update_eq_ok hupdate
    exact h.hasKind.replace hd (TypeUpdate.kindName_result? hd')
  · obtain ⟨ids, types', rfl⟩ := h.elsewhere
    exact ⟨_, _, rfl⟩

/-! ## Declarations -/

/-- To set the size succeeds, if one is given. -/
theorem setSize_succeeds {update : Nat → TypeUpdate}
    (hkind : ∀ bytes, kind ∈ (update bytes).kinds) (hfile : ∀ bytes, (update bytes).file? = none)
    (id : EntryId) (byteSize : Option Nat) :
    Succeeds (Completing u₀ kind id) (do
      if let some bytes := byteSize then
        let _ ← updateType id (update bytes)
      return id) (Completing u₀ kind) := by
  cases byteSize with
  | none => exact .pure fun _ h => h
  | some bytes =>
    have hupdate : Succeeds (Completing u₀ kind id) (updateType id (update bytes))
        fun _ => Completing (u₀.mention (update bytes).file? []) kind id :=
      updateType_succeeds (hkind bytes)
    rw [hfile] at hupdate
    exact hupdate.bind fun _ => .pure fun _ h => h

/-- The definition of a struct or union never fails. -/
theorem defineComposite_succeeds (d : CompositeDecl) :
    Succeeds (Finding u₀) (defineComposite d)
      (Completing (addFile d.loc.file u₀).2 "composite") := by
  obtain ⟨kind, tag, stamp, loc, members, byteSize⟩ := d
  have hname : Succeeds (Finding u₀) (liftM (internType (.base [] (.composite kind tag stamp))))
      (Completing u₀ "composite") := internBase_succeeds (.composite kind tag stamp)
  have hkind (bytes : Nat) : "composite" ∈ (TypeUpdate.compositeSize bytes).kinds := by
    simp [TypeUpdate.kinds]
  refine hname.bind fun id => (updateType_succeeds (by simp [TypeUpdate.kinds])).bind fun _ => ?_
  cases members with
  | none => exact setSize_succeeds hkind (fun _ => rfl) id byteSize
  | some decls =>
    refine (internMembers_succeeds decls).bind fun ms => ?_
    refine (updateType_succeeds (by simp [TypeUpdate.kinds])).bind fun _ => ?_
    exact setSize_succeeds hkind (fun _ => rfl) id byteSize

theorem defineEnum_succeeds (d : EnumDecl) :
    Succeeds (Finding u₀) (defineEnum d) (Completing (addFile d.loc.file u₀).2 "enum") := by
  obtain ⟨tag, stamp, loc, enumerators, byteSize⟩ := d
  have hname : Succeeds (Finding u₀) (liftM (internType (.base [] (.enumeration tag stamp))))
      (Completing u₀ "enum") := internBase_succeeds (.enumeration tag stamp)
  have hkind (bytes : Nat) : "enum" ∈ (TypeUpdate.enumSize bytes).kinds := by
    simp [TypeUpdate.kinds]
  refine hname.bind fun id => (updateType_succeeds (by simp [TypeUpdate.kinds])).bind fun _ => ?_
  refine (updateType_succeeds (by simp [TypeUpdate.kinds])).bind fun _ => ?_
  exact setSize_succeeds hkind (fun _ => rfl) id byteSize

theorem defineTypedef_succeeds (d : TypedefDecl) :
    Succeeds (Finding u₀) (defineTypedef d) (Completing (addFile d.loc.file u₀).2 "typedef") := by
  have hname : Succeeds (Finding u₀) (liftM (internType (.base [] (.alias d.name d.stamp))))
      (Completing u₀ "typedef") := internBase_succeeds (.alias d.name d.stamp)
  refine hname.bind fun id => (internType_succeeds d.type).bind fun target => ?_
  refine (updateType_succeeds (by simp [TypeUpdate.kinds])).bind fun _ => ?_
  exact (updateType_succeeds (by simp [TypeUpdate.kinds])).bind fun _ => .pure fun _ h => h

/-- A definition of a type succeeds, and leaves everything but files, ids and types alone. -/
theorem declare_of_definesType {u : CompilationUnit}
    (hu : TypeTable.FindsBases (u.ids, u.types)) {d : Declaration} (hd : d.definesType = true) :
    ∃ id ids types,
      declare d u = (.ok id, { (addFile d.loc.file u).2 with ids, types }) := by
  have hread {kind : String} {m : UnitM EntryId}
      (hm : Succeeds (Finding u) m (Completing (addFile d.loc.file u).2 kind)) :
      ∃ id ids types, m u = (.ok id, { (addFile d.loc.file u).2 with ids, types }) := by
    obtain ⟨id, u', hrun, -, -, ids, types, rfl⟩ := hm.exists_ok ⟨rfl, hu⟩
    exact ⟨id, ids, types, hrun⟩
  cases d with
  | composite d => exact hread (defineComposite_succeeds d)
  | enum d => exact hread (defineEnum_succeeds d)
  | typedef d => exact hread (defineTypedef_succeeds d)
  | _ => cases hd

end CompilationUnit

end DebugInfo
