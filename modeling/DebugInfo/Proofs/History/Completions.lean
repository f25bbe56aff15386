import DebugInfo.Proofs.History.Writes
import DebugInfo.Proofs.Interning.Replacement

/-!
# What a definition makes of a type

A struct, union, enum or typedef name has a descriptor from its first mention on, and a definition
writes into that one.  While the types of members are interned, and also if they lead back to the
type that is being defined, no other descriptor changes and the id stays what it is.  So a
definition comes to this: all types in it are interned, and then one descriptor is replaced.
-/

namespace DebugInfo

/-- The base type that a declaration defines, if it does define one. -/
def Declaration.defined? : Declaration → Option BaseType
  | .composite d => some (.composite d.kind d.tag d.stamp)
  | .enum d => some (.enumeration d.tag d.stamp)
  | .typedef d => some (.alias d.name d.stamp)
  | _ => none

/-- The base type that a descriptor is of, whatever is known of its definition. -/
def Descriptor.base? : Descriptor → Option BaseType
  | .void => some .void
  | .integer kind => some (.integer kind)
  | .floating kind => some (.floating kind)
  | .composite c => some (.composite c.kind c.tag ⟨0⟩)
  | .enumeration e => some (.enumeration e.tag ⟨0⟩)
  | .alias a => some (.alias a.name ⟨0⟩)
  | _ => none

namespace TypeTable

open TypeExpr

/-- The members of a definition, with the ids that are found of their types and without a layout. -/
def MembersAre (types : TypeTable) (ms : List Member) (ds : List MemberDecl) : Prop :=
  List.Forall₂ (fun m d => types.lookup d.type = some m.type ∧
    m = { name := d.name, type := m.type, bitSize := d.width }) ms ds

/-- What a definition makes of the descriptor of the type.  The first location is kept, and so is
the size if none is declared. -/
inductive Completes (types : TypeTable) : Declaration → Descriptor → Descriptor → Prop where
  /-- A declaration without a list of members leaves those that there are. -/
  | forward {d : CompositeDecl} (hd : d.members = none) (c : Composite) :
      Completes types (.composite d) (.composite c) (.composite
        { kind := d.kind
          tag := d.tag
          loc := c.loc.or (some d.loc)
          byteSize := d.byteSize.or c.byteSize
          isDefined := c.isDefined
          members := c.members })
  | composite {d : CompositeDecl} {ds : List MemberDecl} (hd : d.members = some ds)
      {ms : List Member} (hms : types.MembersAre ms ds) (c : Composite) :
      Completes types (.composite d) (.composite c) (.composite
        { kind := d.kind
          tag := d.tag
          loc := c.loc.or (some d.loc)
          byteSize := d.byteSize.or c.byteSize
          isDefined := true
          members := ms })
  | enum (d : EnumDecl) (e : Enumeration) :
      Completes types (.enum d) (.enumeration e) (.enumeration
        { tag := d.tag
          loc := e.loc.or (some d.loc)
          byteSize := d.byteSize.or e.byteSize
          enumerators := d.enumerators })
  | typedef {d : TypedefDecl} {target : EntryId} (ht : types.lookup d.type = some target)
      (a : Alias) :
      Completes types (.typedef d) (.alias a) (.alias
        { name := d.name
          loc := a.loc.or (some d.loc)
          target := some target })

section Completes

variable {types types' : TypeTable} {d : Declaration} {e e' : Descriptor}

/-- Members that are there are still there when more types are. -/
theorem MembersAre.mono (h : types.Retains types') {ms : List Member} {ds : List MemberDecl}
    (hms : types.MembersAre ms ds) : types'.MembersAre ms ds :=
  List.Forall₂.imp (fun _ d hm => ⟨h d.type _ hm.1, hm.2⟩) hms

/-- What is complete stays complete when more types are there. -/
theorem Completes.mono (h : types.Retains types') (hd : types.Completes d e e') :
    types'.Completes d e e' := by
  cases hd with
  | forward hd c => exact .forward hd c
  | composite hd hms c => exact .composite hd (hms.mono h) c
  | enum d e => exact .enum d e
  | typedef ht a => exact .typedef (h _ _ ht) a

/-- The location that was attached first is kept. -/
theorem Completes.loc (hd : types.Completes d e e') : e'.loc = e.loc.or (some d.loc) := by
  cases hd <;> rfl

end Completes

/-! ## Names -/

/-- A descriptor of the kind of a base type does not refer to other types. -/
theorem exists_base_of_kindName {d : Descriptor} {b : BaseType}
    (hkind : d.kindName = (Descriptor.ofBase b).kindName) :
    ∃ b', d.base? = some b' ∧ b'.unstamped = b' ∧ ∀ f, d.unfoldWith f = some (.base [] b') := by
  cases d with
  | pointer | array | function => cases b <;> simp [Descriptor.kindName, Descriptor.ofBase] at hkind
  | qualified q =>
    cases q <;> cases b <;>
      simp [Descriptor.kindName, Descriptor.ofBase, Qualifier.keyword] at hkind
  | _ => exact ⟨_, rfl, rfl, fun _ => rfl⟩

/-- A descriptor says which base type it was made for, except for the stamp. -/
theorem base?_ofBase (b : BaseType) : (Descriptor.ofBase b).base? = some b.unstamped := by
  cases b <;> rfl

section Base

variable {d : Descriptor}

/-- What was made for a composite is one, of that kind and that tag. -/
theorem exists_composite {kind : CompositeKind} {tag : Name} {stamp : Stamp}
    (h : d.base? = some (BaseType.composite kind tag stamp).unstamped) :
    ∃ c, d = .composite c ∧ c.kind = kind ∧ c.tag = tag := by
  cases d <;> simp_all [Descriptor.base?, BaseType.unstamped]

/-- What was made for an enumeration is one, of that tag. -/
theorem exists_enumeration {tag : Name} {stamp : Stamp}
    (h : d.base? = some (BaseType.enumeration tag stamp).unstamped) :
    ∃ e, d = .enumeration e ∧ e.tag = tag := by
  cases d <;> simp_all [Descriptor.base?, BaseType.unstamped]

/-- What was made for a typedef name is one, of that name. -/
theorem exists_alias {name : Name} {stamp : Stamp}
    (h : d.base? = some (BaseType.alias name stamp).unstamped) :
    ∃ a, d = .alias a ∧ a.name = name := by
  cases d <;> simp_all [Descriptor.base?, BaseType.unstamped]

end Base

variable {s : State}

/-- What is found of a base type has its descriptor. -/
theorem Sound.base?_of_find? (hs : Sound s) (hbases : FindsBases s) {b : BaseType} {id : EntryId}
    (hid : s.2.find? (.base [] b) = some id) :
    ∃ d, s.2.get? id = some d ∧ d.base? = some b.unstamped := by
  obtain ⟨-, d, hd, hkind⟩ := hbases b id hid
  obtain ⟨b', hb', hplain, hunfold⟩ := exists_base_of_kindName hkind
  obtain ⟨n, u, hu, hm⟩ := hs.represents_of_find? hid
  refine ⟨d, hd, ?_⟩
  cases n with
  | zero => cases hu
  | succ n =>
    rw [unfold, hd, Option.bind_some, hunfold] at hu
    cases hu
    rw [Matches, plain] at hm
    cases hmode : s.2.mode <;> rw [hmode] at hm <;>
      simp only [reduced, erased, base.injEq, true_and] at hm
    · rw [hplain] at hm
      rw [hb', hm]
      cases b <;> rfl
    · rw [hb', hm]

end TypeTable

namespace CompilationUnit

open TypeTable (MembersAre Completes)

variable {α β : Type} {u : CompilationUnit} {id : EntryId} {d : Descriptor}

/-! ## Steps -/

/-- The unit with another descriptor for a type. -/
def withDescriptor (u : CompilationUnit) (id : EntryId) (d : Descriptor) : CompilationUnit :=
  { u with types := u.types.replace id d }

theorem withDescriptor_of_get? (hd : u.types.get? id = some d) : u.withDescriptor id d = u := by
  rw [withDescriptor, TypeTable.replace_of_get? hd]

/-- A computation goes on where its first part has come to an end. -/
theorem bind_of_ok {m : UnitM α} {u' : CompilationUnit} {a : α} (h : m u = (.ok a, u'))
    (f : α → UnitM β) : (m >>= f) u = f a u' := by
  have hbind : (m >>= f) u = ExceptT.bindCont f (m u).1 (m u).2 := rfl
  rw [hbind, h]
  rfl

/-- To intern a type does not see what a descriptor says, so one that is there may be exchanged
before or after. -/
theorem internType_withDescriptor (hid : id.raw < u.ids.allocated) (d : Descriptor)
    (t : TypeExpr Attr) :
    internType t (u.withDescriptor id d) =
      ((internType t u).1, (internType t u).2.withDescriptor id d) := by
  have hintern : TypeTable.intern t (u.ids, u.types.replace id d) = _ :=
    TypeTable.intern_replaceIn (s := (u.ids, u.types)) hid t
  simp only [internType, withDescriptor, hintern]
  rfl

/-- Of the unit, members change what their types do. -/
theorem internMembers_snd (u : CompilationUnit) (ds : List MemberDecl) :
    (internMembers ds u).2 = u.mention none (ds.map (·.type)) := by
  induction ds generalizing u with
  | nil => rfl
  | cons d ds ih => exact ih (internType d.type u).2

/-- Members are interned alike whatever a descriptor that is there says. -/
theorem internMembers_withDescriptor (hid : id.raw < u.ids.allocated) (d : Descriptor)
    (ds : List MemberDecl) :
    internMembers ds (u.withDescriptor id d) =
      ((internMembers ds u).1, (internMembers ds u).2.withDescriptor id d) := by
  induction ds generalizing u with
  | nil => rfl
  | cons m ds ih =>
    have hallocated : u.ids.allocated ≤ (internType m.type u).2.ids.allocated :=
      (TypeTable.intern_appends m.type (u.ids, u.types)).allocated
    have hcons (u : CompilationUnit) : internMembers (m :: ds) u =
        ({ name := m.name, type := (internType m.type u).1, bitSize := m.width } ::
          (internMembers ds (internType m.type u).2).1,
          (internMembers ds (internType m.type u).2).2) := rfl
    rw [hcons, hcons, internType_withDescriptor hid, ih (Nat.lt_of_lt_of_le hid hallocated)]

/-- To mention types loses none. -/
theorem retains_mention (u : CompilationUnit) (file? : Option Name) (ts : List (TypeExpr Attr)) :
    u.types.Retains (u.mention file? ts).types :=
  fun _ _ hid => (TypeTable.internAll_interns ts (u.ids, u.types)).finds hid

/-- Members lead to the types that they were declared with. -/
theorem membersAre_internMembers (u : CompilationUnit) (ds : List MemberDecl) :
    (u.mention none (ds.map (·.type))).types.MembersAre (internMembers ds u).1 ds := by
  induction ds generalizing u with
  | nil => exact .nil
  | cons m ds ih =>
    have hm := (internType m.type u).2.retains_mention none (ds.map (·.type)) m.type _
      (u.lookup_internType m.type)
    exact .cons ⟨hm, rfl⟩ (ih (internType m.type u).2)

/-- An update of the kind of the descriptor changes the descriptor and may note a file. -/
theorem updateType_withDescriptor (u : CompilationUnit) (id : EntryId) (update : TypeUpdate)
    (d : Descriptor) {d' : Descriptor} (hd' : update.result? d = some d') :
    ∃ changed, updateType id update (u.withDescriptor id d) =
      (.ok changed, (u.mention update.file? []).withDescriptor id d') := by
  obtain ⟨changed, hupdate⟩ :=
    TypeTable.update_of_result? (TypeTable.get?_replace_self u.types id d) hd'
  refine ⟨changed, ?_⟩
  have htypes : (u.withDescriptor id d).types = u.types.replace id d := rfl
  rw [updateType_apply, htypes, hupdate, TypeTable.replace_replace]
  rfl

/-! ## Declarations -/

/-- The size is set if it is declared, and the id of the type is the answer. -/
theorem setSize_apply {update : Nat → TypeUpdate} {f : Nat → Descriptor}
    (hfile : ∀ n, (update n).file? = none) (hf : ∀ n, (update n).result? d = some (f n))
    (byteSize : Option Nat) :
    (do
      if let some bytes := byteSize then
        let _ ← updateType id (update bytes)
      return id : UnitM EntryId) (u.withDescriptor id d) =
      (.ok id, u.withDescriptor id (byteSize.elim d f)) := by
  cases byteSize with
  | none => rfl
  | some n =>
    obtain ⟨changed, hupdate⟩ := updateType_withDescriptor u id (update n) d (hf n)
    rw [hfile] at hupdate
    exact bind_of_ok hupdate _

section Definitions

variable {v : CompilationUnit} {b : BaseType}

/-- The name of the type comes first, and the descriptor that it leads to is the one to complete. -/
theorem lift_internName (hv : internType (.base [] b) u = (id, v)) (hd : v.types.get? id = some d) :
    (liftM (internType (.base [] b)) : UnitM EntryId) u = (.ok id, v.withDescriptor id d) := by
  rw [withDescriptor_of_get? hd]
  exact lift_apply hv

/-- A definition of a composite completes the descriptor of its tag, and changes nothing else but
what it mentions. -/
theorem defineComposite_completes {decl : CompositeDecl} {c : Composite}
    (hv : internType (.base [] (.composite decl.kind decl.tag decl.stamp)) u = (id, v))
    (hid : id.raw < v.ids.allocated) (hc : v.types.get? id = some (.composite c))
    (hkind : c.kind = decl.kind) (htag : c.tag = decl.tag) :
    let w := v.mention (some decl.loc.file) ((decl.members.getD []).map (·.type))
    ∃ d', defineComposite decl u = (.ok id, w.withDescriptor id d') ∧
      Completes w.types (.composite decl) (.composite c) d' := by
  obtain ⟨kind, tag, stamp, loc, members, byteSize⟩ := decl
  obtain ⟨rfl⟩ := hkind
  obtain ⟨rfl⟩ := htag
  intro w
  obtain ⟨_, hloc⟩ := updateType_withDescriptor v id (.loc loc) (.composite c) rfl
  unfold defineComposite
  rw [bind_of_ok (lift_internName hv hc), bind_of_ok hloc]
  cases members with
  | none =>
    refine ⟨_, setSize_apply (fun _ => rfl) (fun _ => rfl) byteSize, ?_⟩
    cases byteSize <;> exact .forward rfl c
  | some ds =>
    -- The location is there before the members are interned, which does not see it.
    have hmembers := lift_apply (internMembers_withDescriptor (u := v.mention (some loc.file) [])
      hid (.composite { c with loc := c.loc.or (some loc) }) ds)
    rw [internMembers_snd, ← mention_append] at hmembers
    have hms : w.types.MembersAre (internMembers ds (v.mention (some loc.file) [])).1 ds :=
      membersAre_internMembers (v.mention (some loc.file) []) ds
    obtain ⟨_, hset⟩ := updateType_withDescriptor w id
      (.members (internMembers ds (v.mention (some loc.file) [])).1)
      (.composite { c with loc := c.loc.or (some loc) }) rfl
    refine ⟨_, (bind_of_ok hmembers _).trans ((bind_of_ok hset _).trans
      (setSize_apply (fun _ => rfl) (fun _ => rfl) byteSize)), ?_⟩
    cases byteSize <;> exact .composite rfl hms c

/-- A definition of an enumeration completes the descriptor of its tag. -/
theorem defineEnum_completes {decl : EnumDecl} {e : Enumeration}
    (hv : internType (.base [] (.enumeration decl.tag decl.stamp)) u = (id, v))
    (he : v.types.get? id = some (.enumeration e)) (htag : e.tag = decl.tag) :
    let w := v.mention (some decl.loc.file) []
    ∃ d', defineEnum decl u = (.ok id, w.withDescriptor id d') ∧
      Completes w.types (.enum decl) (.enumeration e) d' := by
  obtain ⟨tag, stamp, loc, enumerators, byteSize⟩ := decl
  obtain ⟨rfl⟩ := htag
  intro w
  obtain ⟨_, hloc⟩ := updateType_withDescriptor v id (.loc loc) (.enumeration e) rfl
  obtain ⟨_, hset⟩ := updateType_withDescriptor w id (.enumerators enumerators)
    (.enumeration { e with loc := e.loc.or (some loc) }) rfl
  unfold defineEnum
  rw [bind_of_ok (lift_internName hv he), bind_of_ok hloc]
  refine ⟨_, (bind_of_ok hset _).trans
    (setSize_apply (fun _ => rfl) (fun _ => rfl) byteSize), ?_⟩
  cases byteSize <;> exact .enum _ e

/-- A typedef completes the descriptor of its name. -/
theorem defineTypedef_completes {decl : TypedefDecl} {a : Alias}
    (hv : internType (.base [] (.alias decl.name decl.stamp)) u = (id, v))
    (hid : id.raw < v.ids.allocated) (ha : v.types.get? id = some (.alias a))
    (hname : a.name = decl.name) :
    let w := v.mention (some decl.loc.file) [decl.type]
    ∃ d', defineTypedef decl u = (.ok id, w.withDescriptor id d') ∧
      Completes w.types (.typedef decl) (.alias a) d' := by
  obtain ⟨name, stamp, type, loc⟩ := decl
  obtain ⟨rfl⟩ := hname
  intro w
  have htarget := lift_apply (internType_withDescriptor hid (.alias a) type)
  have hlookup : w.types.lookup type = some (internType type v).1 := v.lookup_internType type
  obtain ⟨_, hloc⟩ := updateType_withDescriptor (internType type v).2 id (.loc loc) (.alias a) rfl
  obtain ⟨_, hset⟩ := updateType_withDescriptor w id (.target (internType type v).1)
    (.alias { a with loc := a.loc.or (some loc) }) rfl
  unfold defineTypedef
  rw [bind_of_ok (lift_internName hv ha), bind_of_ok htarget, bind_of_ok hloc]
  exact ⟨_, bind_of_ok hset _, .typedef hlookup a⟩

end Definitions

/-- The name of a type leads to its descriptor, which is new if there was none. -/
theorem Coherent.internBase (hu : Coherent u) (b : BaseType) :
    let v := internType (.base [] b) u
    let d := (u.types.get? v.1).getD (.ofBase b)
    v.1.raw < v.2.ids.allocated ∧ v.2.types.get? v.1 = some d ∧ d.base? = some b.unstamped := by
  have hsound := hu.orderly.types
  cases hfind : u.types.find? (.base [] b) with
  | some id =>
    have hintern : internType (.base [] b) u = (id, u) := by
      rw [internType, TypeTable.intern_of_lookup (s := (u.ids, u.types)) (t := .base [] b) hfind]
    obtain ⟨d, hd, hbase⟩ := hsound.base?_of_find? hu.bases hfind
    have hd : u.types.get? id = some d := hd
    rw [hintern]
    dsimp only
    rw [hd]
    exact ⟨hsound.allocated id d hd, rfl, hbase⟩
  | none =>
    have hnone : u.types.get? u.ids.fresh.1 = none := hsound.get?_eq_none (Nat.le_refl _)
    have hintern : internType (.base [] b) u = (u.ids.fresh.1, { u with
        ids := u.ids.fresh.2
        types := (TypeTable.add (.base [] b) (.ofBase b) (u.ids, u.types)).2.2 }) := by
      rw [internType, TypeTable.intern_base hfind]
      rfl
    have hget : (TypeTable.add (.base [] b) (.ofBase b) (u.ids, u.types)).2.2.get? u.ids.fresh.1 =
        some (.ofBase b) :=
      (TypeTable.get?_add _ _ _ _).trans (if_pos rfl)
    rw [hintern]
    dsimp only
    rw [hget, hnone]
    exact ⟨Nat.lt_succ_self _, rfl, TypeTable.base?_ofBase b⟩

/-- A definition interns the types in it, the one that it defines among them, and completes what is
known of that one. -/
theorem declare_completes (hu : Coherent u) {d : Declaration} {b : BaseType}
    (hd : d.defined? = some b) :
    let v := u.mention (some d.loc.file) d.types
    ∃ id d', v.types.lookup (.base [] b) = some id ∧
      declare d u = (.ok id, v.withDescriptor id d') ∧
      Completes v.types d ((u.types.get? id).getD (.ofBase b)) d' := by
  obtain ⟨hid, hget, hbase⟩ := hu.internBase b
  have hlookup := u.lookup_internType (.base [] b)
  have hretains (ts : List (TypeExpr Attr)) :=
    (internType (.base [] b) u).2.retains_mention none ts (.base [] b) _ hlookup
  refine ⟨(internType (.base [] b) u).1, ?_⟩
  obtain d | d | d | d | d | d := d
  case composite =>
    cases hd
    obtain ⟨c, hc, hkind, htag⟩ := TypeTable.exists_composite hbase
    rw [hc] at hget ⊢
    obtain ⟨d', hdefine, hcompletes⟩ := defineComposite_completes rfl hid hget hkind htag
    exact ⟨d', hretains _, hdefine, hcompletes⟩
  case enum =>
    cases hd
    obtain ⟨e, he, htag⟩ := TypeTable.exists_enumeration hbase
    rw [he] at hget ⊢
    obtain ⟨d', hdefine, hcompletes⟩ := defineEnum_completes rfl hget htag
    exact ⟨d', hretains _, hdefine, hcompletes⟩
  case typedef =>
    cases hd
    obtain ⟨a, ha, hname⟩ := TypeTable.exists_alias hbase
    rw [ha] at hget ⊢
    obtain ⟨d', hdefine, hcompletes⟩ := defineTypedef_completes rfl hid hget hname
    exact ⟨d', hretains _, hdefine, hcompletes⟩
  all_goals cases hd

end CompilationUnit

end DebugInfo
