import DebugInfo.Proofs.Interning.Closure
import DebugInfo.Proofs.Interning.Unfolding

/-!
# What interning adds

Of any table, sound or not, interning adds descriptors one after the other, each under the key of
the type that it was made for, and only if there is nothing under that key.  The descriptor fits the
outermost layer of the type: it is of the kind that the layer asks for, and the ids in it are those
that are found of the parts of the type.  The types that are added are those of the closure.

Interning looks for the key of a type before it adds the parts of the type, and adds the key
afterwards.  In between the key does not turn up, since the parts are lighter than the type.

A key of a plain base type is the key of plain base types of that kind only, so what is found
under it is of that kind for ever, however much the table grows.
-/

namespace DebugInfo

namespace Descriptor

section Fits

variable (R : CanonicalType → EntryId → Prop)

/-- What is stored of the result of a function. -/
def FitsResult : Option EntryId → CanonicalType → Prop
  | none, r => r.isPlainVoid = true
  | some id, r => r.isPlainVoid = false ∧ R r id

/-- What is stored of its parameters. -/
def FitsParams (ids : List (Name × EntryId)) (ps : List (Name × CanonicalType)) : Prop :=
  List.Forall₂ (fun i p => i.1 = p.1 ∧ R p.2 i.2) ids ps

/-- A descriptor of the kind that the outermost layer of the type asks for, whose ids are those of
the parts of the type. -/
inductive Fits : Descriptor → CanonicalType → Prop where
  | base (b : BaseType) : Fits (.ofBase b) (.base [] b)
  | pointer {id : EntryId} {t : CanonicalType} (h : R t id) : Fits (.pointer id) (.pointer [] t)
  | array {id : EntryId} {t : CanonicalType} (ht : t.isPlainArray = false) (h : R t id)
      (n : Option Nat) : Fits (.array id [n]) (.array [] t n)
  /-- A plain array of plain arrays is one array of more dimensions. -/
  | dimension {id : EntryId} {lengths : List (Option Nat)} {t : CanonicalType}
      (ht : t.isPlainArray = true) (h : Fits (.array id lengths) t) (n : Option Nat) :
      Fits (.array id (n :: lengths)) (.array [] t n)
  | function {result : Option EntryId} {ids : List (Name × EntryId)} {r : CanonicalType}
      {ps : List (Name × CanonicalType)} (hr : FitsResult R result r) (hps : FitsParams R ids ps)
      (v : Bool) : Fits (.function result (some ids)) (.function [] r ps v)
  | unprototyped {result : Option EntryId} {r : CanonicalType} (hr : FitsResult R result r)
      (v : Bool) : Fits (.function result none) (.unprototyped [] r v)
  | qualified {q : Qualifier} {qs : List Qualifier} {id : EntryId} {t : CanonicalType}
      (ht : t.attrs = q :: qs) (h : R (t.withAttrs qs) id) : Fits (.qualified q id) t

end Fits

variable {R R' : CanonicalType → EntryId → Prop} {d : Descriptor} {t : CanonicalType}

theorem FitsResult.mono {result : Option EntryId} (hR : ∀ t id, R t id → R' t id)
    (h : FitsResult R result t) : FitsResult R' result t := by
  cases result with
  | none => exact h
  | some id => exact ⟨h.1, hR t id h.2⟩

theorem FitsParams.mono {ids : List (Name × EntryId)} {ps : List (Name × CanonicalType)}
    (hR : ∀ t id, R t id → R' t id) (h : FitsParams R ids ps) : FitsParams R' ids ps :=
  List.Forall₂.imp (fun i p hip => ⟨hip.1, hR p.2 i.2 hip.2⟩) h

/-- A descriptor fits also with more ids for the types. -/
theorem Fits.mono (hR : ∀ t id, R t id → R' t id) (h : d.Fits R t) : d.Fits R' t := by
  induction h with
  | base b => exact .base b
  | pointer h => exact .pointer (hR _ _ h)
  | array ht h n => exact .array ht (hR _ _ h) n
  | dimension ht _ n ih => exact .dimension ht ih n
  | function hr hps v => exact .function (hr.mono hR) (hps.mono hR) v
  | unprototyped hr v => exact .unprototyped (hr.mono hR) v
  | qualified ht h => exact .qualified ht (hR _ _ h)

/-- One more dimension goes in front of those of an array. -/
theorem Fits.addDimension (h : d.Fits R t) (ht : t.isPlainArray = true) (n : Option Nat) :
    (d.addDimension n).Fits R (.array [] t n) := by
  obtain ⟨e, m, rfl⟩ := (TypeExpr.isPlainArray_iff t).1 ht
  cases h with
  | array he h m => exact .dimension rfl (.array he h m) n
  | dimension he h m => exact .dimension rfl (.dimension he h m) n
  | qualified hattrs => cases hattrs

/-- Only a base descriptor fits a base type. -/
theorem Fits.eq_ofBase {b : BaseType} (h : d.Fits R (.base [] b)) : d = .ofBase b := by
  cases h with
  | base => rfl
  | qualified hattrs => cases hattrs

end Descriptor

namespace TypeTable

open TypeExpr

/-- The supply of ids together with the table. -/
abbrev State := IdSupply × TypeTable

/-! ## Adding one type -/

/-- To add a type puts its key, and no other. -/
theorem keys_add (s : State) (t : CanonicalType) (d : Descriptor) (k : TypeKey) :
    (add t d s).2.2.keys[k]? =
      if TypeKey.of s.2.mode t = k then some (add t d s).1 else s.2.keys[k]? := by
  simp only [add, Std.ExtTreeMap.getElem?_insert, Std.compare_eq_iff_eq]

/-- A type is found under the id that it has been added with. -/
theorem find?_add_self (s : State) (t : CanonicalType) (d : Descriptor) :
    (add t d s).2.2.find? t = some (add t d s).1 := by
  have hmode : (add t d s).2.2.mode = s.2.mode := rfl
  rw [find?, hmode, keys_add, if_pos rfl]

/-- To add a type puts one descriptor, under the next id. -/
theorem get?_add (s : State) (t : CanonicalType) (d : Descriptor) (id : EntryId) :
    (add t d s).2.2.get? id = if (add t d s).1 = id then some d else s.2.get? id := by
  simp only [add, get?, Std.ExtTreeMap.getElem?_insert, Std.compare_eq_iff_eq]
  congr

/-- The id is what is found of the type. -/
def Finds (table : TypeTable) (t : CanonicalType) (id : EntryId) : Prop := table.find? t = some id

/-- Types of the list are added one after the other.  Each one is missing until it is added, and its
descriptor leads to the parts that are found before. -/
inductive Interns (ts : List CanonicalType) (s : State) : State → Prop where
  | refl : Interns ts s s
  | add {s' : State} {t : CanonicalType} {d : Descriptor} (h : Interns ts s s') (ht : t ∈ ts)
      (hnew : s'.2.find? t = none) (hd : d.Fits s'.2.Finds t) :
      Interns ts s (TypeTable.add t d s').2

namespace Interns

variable {ts us : List CanonicalType} {s s' s₁ s₂ s₃ : State}

/-- To intern types twice interns them. -/
theorem trans (h : Interns ts s₁ s₂) (h' : Interns ts s₂ s₃) : Interns ts s₁ s₃ := by
  induction h' with
  | refl => exact h
  | add _ ht hnew hd ih => exact ih.add ht hnew hd

/-- More types may be allowed. -/
theorem mono (hts : ts ⊆ us) (h : Interns ts s s') : Interns us s s' := by
  induction h with
  | refl => exact .refl
  | add _ ht hnew hd ih => exact ih.add (hts ht) hnew hd

theorem mode (h : Interns ts s s') : s'.2.mode = s.2.mode := by
  induction h with
  | refl => rfl
  | add _ _ _ _ ih => exact ih

/-- A key never comes to stand for another id. -/
theorem key (h : Interns ts s s') {k : TypeKey} {id : EntryId} (hk : s.2.keys[k]? = some id) :
    s'.2.keys[k]? = some id := by
  induction h with
  | refl => exact hk
  | add _ _ hnew _ ih =>
    rw [keys_add]
    split
    · next heq =>
      rw [find?, heq, ih] at hnew
      cases hnew
    · exact ih

/-- What is found is found under the same id afterwards. -/
theorem finds (h : Interns ts s s') {t : CanonicalType} {id : EntryId} (hid : s.2.Finds t id) :
    s'.2.Finds t id := by
  rw [Finds, find?, h.mode]
  exact h.key hid

/-- What is found afterwards was found before, or it has the key of a type that was added. -/
theorem finds_cases (h : Interns ts s s') {t : CanonicalType} {id : EntryId}
    (hid : s'.2.Finds t id) :
    s.2.Finds t id ∨ ∃ u ∈ ts, TypeKey.of s.2.mode u = TypeKey.of s.2.mode t := by
  induction h with
  | refl => exact .inl hid
  | @add s' u d h hu hnew hd ih =>
    have hmode : (TypeTable.add u d s').2.2.mode = s'.2.mode := rfl
    rw [Finds, find?, hmode, keys_add] at hid
    split at hid
    · next heq =>
      rw [h.mode] at heq
      exact .inr ⟨u, hu, heq⟩
    · exact ih hid

/-- A type that is heavier than all that is added stays missing. -/
theorem find?_eq_none (h : Interns ts s s') {t : CanonicalType}
    (hlt : ∀ u ∈ ts, weight u < weight t) (ht : s.2.find? t = none) : s'.2.find? t = none := by
  refine Option.eq_none_iff_forall_ne_some.2 fun id hid => ?_
  rcases h.finds_cases hid with hid | ⟨u, hu, hkey⟩
  · rw [Finds, ht] at hid
    cases hid
  · exact Nat.lt_irrefl _ (weight_eq_of_key_eq hkey ▸ hlt u hu)

end Interns

/-! ## Computations -/

/-- From any state, `m` interns types of the list only, and its result satisfies `post`. -/
def Interning {α : Type} (m : InternM α) (ts : List CanonicalType)
    (post : TypeTable → α → Prop) : Prop :=
  ∀ s, Interns ts s (m s).2 ∧ post (m s).2.2 (m s).1

section Interning

variable {α β γ : Type} {ts us : List CanonicalType} {p : TypeTable → α → Prop}
  {q : TypeTable → β → Prop} {r : TypeTable → γ → Prop}

theorem Interning.pure {a : α} (h : ∀ table, p table a) : Interning (Pure.pure a) ts p :=
  fun s => ⟨.refl, h s.2⟩

theorem Interning.map {m : InternM α} {f : α → β} (hm : Interning m ts p)
    (hf : ∀ table a, p table a → q table (f a)) : Interning (f <$> m) ts q :=
  fun s => ⟨(hm s).1, hf _ _ (hm s).2⟩

/-- Two computations, one after the other.  What is true after the first one has to stay true while
the second one adds types. -/
theorem Interning.both {m : InternM α} {m' : InternM β} {f : α → β → γ} (hm : Interning m ts p)
    (hm' : Interning m' us q)
    (hp : ∀ {s s' : State} a, Interns us s s' → p s.2 a → p s'.2 a)
    (hr : ∀ table a b, p table a → q table b → r table (f a b)) :
    Interning (do return f (← m) (← m')) (ts ++ us) r := by
  intro s
  obtain ⟨hinterns, ha⟩ := hm s
  obtain ⟨hinterns', hb⟩ := hm' (m s).2
  refine ⟨?_, hr _ _ _ (hp _ hinterns' ha) hb⟩
  exact (hinterns.mono (List.subset_append_left ts us)).trans
    (hinterns'.mono (List.subset_append_right ts us))

end Interning

/-! ## One layer -/

variable {t r : CanonicalType} {ts : List CanonicalType} {make : InternM Descriptor}

/-- A type that is found is not added again. -/
theorem internAs_of_find? {s : State} {id : EntryId} (h : s.2.find? t = some id)
    (make : InternM Descriptor) : internAs t make s = (id, s) := by
  rw [internAs, h]

/-- A type that is found with its qualifiers is not added again. -/
theorem internLayer_of_find? {s : State} {qs : List Qualifier} {id : EntryId}
    (h : s.2.find? (t.withAttrs qs) = some id) (make : InternM Descriptor) :
    internLayer t make qs s = (id, s) := by
  cases qs with
  | nil => exact internAs_of_find? h make
  | cons q qs => exact internAs_of_find? h _

/-- If describing `t` adds lighter types only, its own key is still missing when it is added. -/
theorem internAs_interning (hlt : ∀ u ∈ ts, weight u < weight t)
    (h : Interning make ts fun table d => d.Fits table.Finds t) :
    Interning (internAs t make) (t :: ts) fun table id => table.Finds t id := by
  intro s
  cases hfind : s.2.find? t with
  | some id =>
    rw [internAs_of_find? hfind]
    exact ⟨.refl, hfind⟩
  | none =>
    obtain ⟨hinterns, hd⟩ := h s
    have heq : internAs t make s = add t (make s).1 (make s).2 := by
      rw [internAs, hfind]
      rfl
    rw [heq]
    refine ⟨?_, find?_add_self _ _ _⟩
    exact (hinterns.mono (List.subset_cons_self t ts)).add List.mem_cons_self
      (hinterns.find?_eq_none hlt hfind) hd

/-- What is claimed of a type: its descriptor fits it once the qualifiers are left out. -/
abbrev DescribeInterning (t : CanonicalType) : Prop :=
  Interning (describe t) (inside t) fun table d => d.Fits table.Finds (t.withAttrs [])

/-- To intern the layers of a type interns them and what is inside. -/
theorem internLayer_interning (h : DescribeInterning t) (qs : List Qualifier) :
    Interning (internLayer t (describe t) qs) (layers t qs ++ inside t)
      fun table id => table.Finds (t.withAttrs qs) id := by
  induction qs with
  | nil => exact internAs_interning (insideLighter t) h
  | cons q qs ih =>
    refine internAs_interning ?_ (ih.map fun table id hid => ?_)
    · intro u hu
      exact Nat.lt_of_le_of_lt ((insideLighter t).layers hu) (weight_withAttrs_lt q qs t)
    · refine .qualified (attrs_withAttrs _ _) ?_
      rwa [withAttrs_withAttrs]

/-- To intern a canonical type interns all that it is made of, and finds it. -/
theorem internCanonical_interning (h : DescribeInterning t) :
    Interning (internCanonical t) (closure t) fun table id => table.Finds t id := by
  have hlayer := internLayer_interning h t.attrs
  rwa [withAttrs_attrs] at hlayer

/-! ## Functions -/

/-- The result of a function is not interned if it is `void`. -/
def internResult (r : CanonicalType) : InternM (Option EntryId) :=
  if r.isPlainVoid then pure none else some <$> internCanonical r

/-- A function is described by its result and then by its parameters. -/
theorem describe_function (qs : List Qualifier) (r : CanonicalType)
    (ps : List (Name × CanonicalType)) (v : Bool) :
    describe (.function qs r ps v) = do
      let result ← internResult r
      let params ← describeParams ps
      return .function result (some params) := by
  rw [describe, internResult]
  split <;> rfl

/-- A function without a prototype is described by its result. -/
theorem describe_unprototyped (qs : List Qualifier) (r : CanonicalType) (v : Bool) :
    describe (.unprototyped qs r v) = (Descriptor.function · none) <$> internResult r := by
  rw [describe, internResult]
  split <;> rfl

/-- To intern a result interns all that it is made of, and nothing for `void`. -/
theorem internResult_interning (h : DescribeInterning r) :
    Interning (internResult r) (if r.isPlainVoid then [] else closure r)
      fun table result => Descriptor.FitsResult table.Finds result r := by
  unfold internResult
  split
  · next hvoid => exact .pure fun _ => hvoid
  · next hvoid => exact (internCanonical_interning h).map fun _ _ hid => ⟨by simpa using hvoid, hid⟩

/-- To intern parameters interns all that they are made of. -/
theorem describeParams_interning {ps : List (Name × CanonicalType)}
    (h : ∀ p ∈ ps, DescribeInterning p.2) :
    Interning (describeParams ps) (insideParams ps)
      fun table ids => Descriptor.FitsParams table.Finds ids ps := by
  induction ps with
  | nil => exact .pure fun _ => .nil
  | cons p ps ih =>
    have hps := ih fun p' hp' => h p' (List.mem_cons_of_mem p hp')
    refine (internCanonical_interning (h p List.mem_cons_self)).both hps ?_ ?_
    · exact fun _ hinterns hid => hinterns.finds hid
    · exact fun _ _ _ hid hrest => .cons ⟨rfl, hid⟩ hrest

/-! ## All types -/

/-- To describe a type interns what is inside of it. -/
theorem describe_interning (t : CanonicalType) : DescribeInterning t := by
  induction t using TypeExpr.induct with
  | base qs b =>
    rw [DescribeInterning, describe]
    exact .pure fun _ => .base b
  | pointer qs t ih =>
    rw [DescribeInterning, describe]
    exact (internCanonical_interning ih).map fun _ _ hid => .pointer hid
  | array qs t n ih =>
    rw [DescribeInterning, describe, inside]
    split
    · next harray =>
      obtain ⟨e, m, rfl⟩ := (isPlainArray_iff t).1 harray
      exact ih.map fun _ _ hd => hd.addDimension rfl n
    · next harray =>
      exact (internCanonical_interning ih).map fun _ _ hid => .array (by simpa using harray) hid n
  | function qs r ps v ihr ihps =>
    rw [DescribeInterning, describe_function]
    refine (internResult_interning ihr).both (describeParams_interning ihps) ?_ ?_
    · exact fun _ hinterns hr => hr.mono fun _ _ hid => hinterns.finds hid
    · exact fun _ _ _ hr hps => .function hr hps v
  | unprototyped qs r v ih =>
    rw [DescribeInterning, describe_unprototyped]
    exact (internResult_interning ih).map fun _ _ hr => .unprototyped hr v

/-- Interning a type adds what it is made of, and finds it afterwards. -/
theorem intern_interning (t : TypeExpr Attr) :
    Interning (intern t) (closure t.canonical) fun table id => table.Finds t.canonical id :=
  internCanonical_interning (describe_interning t.canonical)

/-- A type that is there is not added again. -/
theorem intern_of_lookup {s : State} {t : TypeExpr Attr} {id : EntryId}
    (h : s.2.lookup t = some id) : intern t s = (id, s) := by
  rw [lookup, ← withAttrs_attrs t.canonical] at h
  exact internLayer_of_find? h _

/-- Intern types in order. -/
def internAll (ts : List (TypeExpr Attr)) (s : State) : State :=
  ts.foldl (fun s t => (intern t s).2) s

/-- To intern several types interns all that each of them is made of. -/
theorem internAll_interns (ts : List (TypeExpr Attr)) (s : State) :
    Interns (ts.flatMap (closure ·.canonical)) s (internAll ts s) := by
  induction ts generalizing s with
  | nil => exact .refl
  | cons t ts ih =>
    have hinterns := (intern_interning t s).1
    exact (hinterns.mono (List.subset_append_left _ _)).trans
      ((ih _).mono (List.subset_append_right _ _))

/-! ## Base types -/

/-- There is a descriptor of that kind under the id. -/
def HasKind (table : TypeTable) (id : EntryId) (kind : String) : Prop :=
  ∃ d, table.get? id = some d ∧ d.kindName = kind

/-- What is found of a plain base type is of its kind. -/
def FindsBases (s : State) : Prop :=
  ∀ b id, s.2.find? (.base [] b) = some id →
    id.raw < s.1.allocated ∧ s.2.HasKind id (Descriptor.ofBase b).kindName

theorem findsBases_empty (ids : IdSupply) (mode : KeyMode) : FindsBases (ids, .empty mode) := by
  intro b id h
  simp [find?, TypeTable.empty] at h

theorem FindsBases.mono {s : State} {ids : IdSupply} (h : FindsBases s)
    (hids : s.1.allocated ≤ ids.allocated) : FindsBases (ids, s.2) :=
  fun b id hid => ⟨Nat.lt_of_lt_of_le (h b id hid).1 hids, (h b id hid).2⟩

/-- A key tells the kinds of plain base types from each other and from all other types. -/
theorem exists_base_of_key_eq {mode : KeyMode} {b : BaseType}
    (h : TypeKey.of mode t = TypeKey.of mode (.base [] b)) :
    ∃ b', t = .base [] b' ∧ (Descriptor.ofBase b').kindName = (Descriptor.ofBase b).kindName := by
  have hreduced := (key_eq_iff mode t (.base [] b)).1 h
  cases mode with
  | structural => exact ⟨b, hreduced, rfl⟩
  | spelling =>
    cases t <;> simp only [reduced, erased, base.injEq, reduceCtorEq] at hreduced
    case base qs b' =>
      obtain ⟨rfl, hb⟩ := hreduced
      refine ⟨b', rfl, ?_⟩
      cases b <;> cases b' <;> first | rfl | cases hb

/-- To add a type with a descriptor that fits keeps base types found as such. -/
theorem FindsBases.add {s : State} {d : Descriptor} {R : CanonicalType → EntryId → Prop}
    (hs : FindsBases s) (hd : d.Fits R t) : FindsBases (add t d s).2 := by
  intro b id h
  rw [find?, keys_add] at h
  split at h
  · next hkey =>
    cases h
    obtain ⟨b', rfl, hkind⟩ := exists_base_of_key_eq hkey
    refine ⟨Nat.lt_succ_self _, d, by rw [get?_add, if_pos rfl], ?_⟩
    rw [hd.eq_ofBase, hkind]
  · obtain ⟨hlt, d', hd', hkind⟩ := hs b id h
    have hne : (TypeTable.add t d s).1 ≠ id := by
      rintro rfl
      exact Nat.lt_irrefl _ hlt
    exact ⟨Nat.lt_succ_of_lt hlt, d', by rw [get?_add, if_neg hne, hd'], hkind⟩

/-- To intern types keeps base types found as such. -/
theorem FindsBases.interns {s s' : State} (hs : FindsBases s) (h : Interns ts s s') :
    FindsBases s' := by
  induction h with
  | refl => exact hs
  | add _ _ _ hd ih => exact ih.add hd

/-- The descriptor of a plain base type is the only one that is added. -/
theorem intern_base {s : State} {b : BaseType} (hnew : s.2.find? (.base [] b) = none) :
    intern (.base [] b) s = add (.base [] b) (.ofBase b) s := by
  show internAs (.base [] b) (describe (.base [] b)) s = _
  rw [internAs, hnew, describe]
  rfl

/-- A plain base type is found, or its descriptor is added. -/
theorem FindsBases.intern {s : State} (hs : FindsBases s) (b : BaseType) :
    let (id, s') := TypeTable.intern (.base [] b) s
    id.raw < s'.1.allocated ∧ s'.2.HasKind id (Descriptor.ofBase b).kindName := by
  cases hfind : s.2.find? (.base [] b) with
  | some id =>
    rw [intern_of_lookup (t := .base [] b) hfind]
    exact hs b id hfind
  | none =>
    rw [intern_base hfind]
    have hget := get?_add s (.base [] b) (.ofBase b) (TypeTable.add (.base [] b) (.ofBase b) s).1
    rw [if_pos rfl] at hget
    exact ⟨Nat.lt_succ_self _, .ofBase b, hget, rfl⟩

end TypeTable

end DebugInfo
