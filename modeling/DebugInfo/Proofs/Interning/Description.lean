import DebugInfo.Proofs.Interning.Unfolding

/-!
# What ids and descriptors stand for

An id represents a type, and a descriptor describes it, if unfolding ends with a type that the key
cannot tell from it.  There is one lemma for each kind of descriptor: if the ids in it represent the
parts of a type, it describes the type.
-/

namespace DebugInfo.TypeTable

open TypeExpr Descriptor

/-- The types agree in all that a key of the table sees of what descriptors hold. -/
def Matches (table : TypeTable) (u t : CanonicalType) : Prop :=
  u.reduced table.mode = t.plain.reduced table.mode

/-- From the id on, the descriptors unfold to a type that matches. -/
def Represents (table : TypeTable) (id : EntryId) (t : CanonicalType) : Prop :=
  ∃ n u, table.unfold n id = some u ∧ table.Matches u t

/-- The descriptor unfolds to a type that matches. -/
def Describes (table : TypeTable) (d : Descriptor) (t : CanonicalType) : Prop :=
  ∃ n u, d.unfoldWith (table.unfold n) = some u ∧ table.Matches u t

variable {table table' : TypeTable} {id : EntryId} {d : Descriptor} {t u r : CanonicalType}

/-! ## Transport -/

/-- An id represents the same types in a larger table. -/
theorem Represents.mono (h : table.Extends table') (ht : table.Represents id t) :
    table'.Represents id t := by
  obtain ⟨n, u, hu, hm⟩ := ht
  refine ⟨n, u, unfold_mono h (Nat.le_refl n) hu, ?_⟩
  rw [Matches, h.mode]
  exact hm

theorem Describes.mono (h : table.Extends table') (ht : table.Describes d t) :
    table'.Describes d t := by
  obtain ⟨n, u, hu, hm⟩ := ht
  refine ⟨n, u, unfoldWith_mono (fun id t => unfold_mono h (Nat.le_refl n)) hu, ?_⟩
  rw [Matches, h.mode]
  exact hm

/-- Types of one key are represented by the same ids. -/
theorem Represents.of_key_eq (h : TypeKey.of table.mode t = TypeKey.of table.mode u)
    (ht : table.Represents id t) : table.Represents id u := by
  obtain ⟨n, v, hv, hm⟩ := ht
  exact ⟨n, v, hv, hm.trans (reduced_plain_congr ((key_eq_iff _ _ _).1 h))⟩

/-- An id that represents a type has a descriptor. -/
theorem Represents.get? (h : table.Represents id t) : ∃ d, table.get? id = some d := by
  obtain ⟨n, u, hu, -⟩ := h
  cases n with
  | zero => simp [unfold] at hu
  | succ n =>
    obtain ⟨d, hd, -⟩ := Option.bind_eq_some_iff.1 hu
    exact ⟨d, hd⟩

/-- An id represents what its descriptor describes. -/
theorem Describes.represents (hd : table.get? id = some d) (h : table.Describes d t) :
    table.Represents id t := by
  obtain ⟨n, u, hu, hm⟩ := h
  exact ⟨n + 1, u, by rw [unfold, hd, Option.bind_some, hu], hm⟩

/-! ## Descriptors -/

theorem describes_ofBase (b : BaseType) : table.Describes (.ofBase b) (.base [] b) := by
  refine ⟨0, .base [] b.unstamped, ?_, rfl⟩
  cases b <;> rfl

/-- The descriptor of a pointer describes a pointer to whatever its id represents. -/
theorem describes_pointer (h : table.Represents id t) :
    table.Describes (.pointer id) (.pointer [] t) := by
  obtain ⟨n, u, hu, hm⟩ := h
  refine ⟨n, .pointer [] u, by rw [unfoldWith, hu, Option.map_some], ?_⟩
  rw [Matches, plain, reduced_pointer, reduced_pointer, hm]

/-- The descriptor of a qualifier describes the type with one qualifier more. -/
theorem describes_qualified (q : Qualifier) (h : table.Represents id t) :
    table.Describes (.qualified q id) (t.addAttr q) := by
  obtain ⟨n, u, hu, hm⟩ := h
  have hattrs : u.attrs = t.attrs := by
    have := congrArg TypeExpr.attrs hm
    rwa [attrs_reduced, attrs_reduced, attrs_plain] at this
  refine ⟨n, u.addAttr q, by rw [unfoldWith, hu, Option.map_some], ?_⟩
  rw [Matches, addAttr, addAttr, plain_withAttrs, reduced_withAttrs, reduced_withAttrs, hm, hattrs]

/-- Arrays match if their elements do. -/
theorem Matches.array (m : Option Nat) (h : table.Matches u t) :
    table.Matches (.array [] u m) (.array [] t m) := by
  rw [Matches, plain, reduced_array, reduced_array, h]

/-- The descriptor of an array describes an array of whatever its id represents. -/
theorem describes_array (m : Option Nat) (h : table.Represents id t) :
    table.Describes (.array id [m]) (.array [] t m) := by
  obtain ⟨n, u, hu, hm⟩ := h
  exact ⟨n, .array [] u m, by rw [unfoldWith, hu]; rfl, hm.array m⟩

/-- Only an array descriptor unfolds to an array without qualifiers. -/
theorem exists_array_of_unfoldWith {f : EntryId → Option CanonicalType} {e : CanonicalType}
    {m : Option Nat} (h : d.unfoldWith f = some (.array [] e m)) :
    ∃ element lengths, d = .array element lengths := by
  cases d with
  | array element lengths => exact ⟨element, lengths, rfl⟩
  | qualified q inner =>
    obtain ⟨u, -, hu⟩ := Option.map_eq_some_iff.1 h
    have hattrs : q :: u.attrs = [] := by
      rw [← attrs_addAttr, hu]
      rfl
    exact absurd hattrs (List.cons_ne_nil q u.attrs)
  | pointer target => simp [unfoldWith] at h
  | function result params =>
    cases params with
    | none => simp [unfoldWith] at h
    | some ps =>
      obtain ⟨r, -, h⟩ := Option.bind_eq_some_iff.1 h
      simp at h
  | _ => simp [unfoldWith] at h

/-- One more dimension makes an array of the array that was described. -/
theorem describes_addDimension (m : Option Nat) (h : table.Describes d t)
    (ht : t.isPlainArray = true) : table.Describes (d.addDimension m) (.array [] t m) := by
  obtain ⟨n, u, hu, hm⟩ := h
  obtain ⟨e, k, rfl⟩ := (isPlainArray_iff t).1 ht
  have harray : ∃ e', u = .array [] e' k := by
    have hr : u.reduced table.mode = .array [] (e.plain.reduced table.mode) k := by
      rw [hm, plain, reduced_array]
    exact exists_of_reduced_eq_array hr
  obtain ⟨e', rfl⟩ := harray
  obtain ⟨element, lengths, rfl⟩ := exists_array_of_unfoldWith hu
  obtain ⟨v, hv, hnested⟩ := Option.map_eq_some_iff.1 hu
  refine ⟨n, .array [] (.array [] e' k) m, ?_, hm.array m⟩
  rw [addDimension, unfoldWith, hv, ← hnested]
  rfl

/-- What is stored of the result of a function. -/
def RepresentsResult (table : TypeTable) : Option EntryId → CanonicalType → Prop
  | none, r => r = .base [] .void
  | some id, r => table.Represents id r

/-- What is stored of its parameters. -/
def RepresentsParams (table : TypeTable) (ids : List (Name × EntryId))
    (ps : List (Name × CanonicalType)) : Prop :=
  List.Forall₂ (fun i p => i.1 = p.1 ∧ table.Represents i.2 p.2) ids ps

/-- A result that is represented unfolds to a type that matches. -/
theorem RepresentsResult.exists_unfold {result : Option EntryId}
    (h : table.RepresentsResult result r) :
    ∃ n u, unfoldResult (table.unfold n) result = some u ∧ table.Matches u r := by
  cases result with
  | none =>
    have h : r = .base [] .void := h
    exact ⟨0, .base [] .void, rfl, by rw [h]; rfl⟩
  | some id => exact h

/-- The parameters may need different numbers of steps; the largest one is enough for all. -/
theorem RepresentsParams.exists_unfold {ids : List (Name × EntryId)}
    {ps : List (Name × CanonicalType)} (h : table.RepresentsParams ids ps) :
    ∃ n us, unfoldParams (table.unfold n) ids = some us ∧
      List.Forall₂ (fun u p => u.1 = p.1 ∧ table.Matches u.2 p.2) us ps := by
  induction h with
  | nil => exact ⟨0, [], rfl, .nil⟩
  | @cons i p ids ps hip _ ih =>
    obtain ⟨n, us, hus, hmus⟩ := ih
    obtain ⟨k, u, hu, hmu⟩ := hip.2
    refine ⟨max k n, (i.1, u) :: us, ?_, .cons ⟨hip.1, hmu⟩ hmus⟩
    refine unfoldParams_cons_eq_some.2 ⟨u, us, ?_, ?_, rfl⟩
    · exact unfold_mono (.refl table) (Nat.le_max_left k n) hu
    · exact unfoldParams_mono (fun id t => unfold_mono (.refl table) (Nat.le_max_right k n)) hus

/-- A descriptor without parameters describes a function without a prototype. -/
theorem describes_unprototyped {result : Option EntryId} (v : Bool)
    (h : table.RepresentsResult result r) :
    table.Describes (.function result none) (.unprototyped [] r v) := by
  obtain ⟨n, u, hu, hm⟩ := h.exists_unfold
  refine ⟨n, .unprototyped [] u false, by rw [unfoldWith, hu, Option.map_some], ?_⟩
  rw [Matches, plain, reduced_unprototyped, reduced_unprototyped, hm]

/-- A descriptor with parameters describes a function with a prototype. -/
theorem describes_function {result : Option EntryId} {ids : List (Name × EntryId)}
    {ps : List (Name × CanonicalType)} (v : Bool) (hr : table.RepresentsResult result r)
    (hps : table.RepresentsParams ids ps) :
    table.Describes (.function result (some ids)) (.function [] r ps v) := by
  obtain ⟨n, u, hu, hm⟩ := hr.exists_unfold
  obtain ⟨k, us, hus, hms⟩ := hps.exists_unfold
  refine ⟨max n k, .function [] u us false, ?_, ?_⟩
  · have hu' := unfoldResult_mono
      (fun id t => unfold_mono (.refl table) (Nat.le_max_left n k)) hu
    have hus' := unfoldParams_mono
      (fun id t => unfold_mono (.refl table) (Nat.le_max_right n k)) hus
    rw [unfoldWith, hu', Option.bind_some, hus', Option.map_some]
  · refine reduced_function_congr _ hm ?_
    rw [plainParams_eq_map]
    exact List.forall₂_map_right_iff.2 hms

end DebugInfo.TypeTable
