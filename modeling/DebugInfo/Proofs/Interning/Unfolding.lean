import Mathlib.Data.List.Forall2
import DebugInfo.Proofs.Spelling.ReadBack
import DebugInfo.TypeTable.Update

/-!
# Unfolding the type table

Following the ids of a type table from one of them leads back to a type.  Composites, enums and
typedef names are leaves, so what is written into them later does not matter; an array descriptor
unfolds to one array for each of its dimensions, outermost first.

No descriptor holds a stamp or a variadic flag, so what comes back is at best the `plain` type.
Types with the same key share a descriptor, so it is the type of that key that was there first;
`reduced` is what all types of one key have in common (`key_eq_iff`).
-/

namespace DebugInfo

namespace TypeExpr

/-! ## What a descriptor does not hold -/

mutual

/-- The type without stamps and variadic flags. -/
def plain : CanonicalType → CanonicalType
  | .base qs b => .base qs b.unstamped
  | .pointer qs t => .pointer qs t.plain
  | .array qs t n => .array qs t.plain n
  | .function qs r ps _ => .function qs r.plain (plainParams ps) false
  | .unprototyped qs r _ => .unprototyped qs r.plain false

def plainParams : List (Name × CanonicalType) → List (Name × CanonicalType)
  | [] => []
  | (n, t) :: ps => (n, t.plain) :: plainParams ps

end

theorem plainParams_eq_map (ps : List (Name × CanonicalType)) :
    plainParams ps = ps.map fun p => (p.1, p.2.plain) := by
  induction ps with
  | nil => rfl
  | cons p ps ih => simp [plainParams, ih]

@[simp] theorem isPlainVoid_plain (t : CanonicalType) : t.plain.isPlainVoid = t.isPlainVoid := by
  cases t with
  | base qs b => cases b <;> rfl
  | _ => rfl

/-- Which parameters are declared does not depend on what is held of them. -/
theorem declared_plainParams (ps : List (Name × CanonicalType)) (v : Bool) :
    declared (plainParams ps) v = plainParams (declared ps v) := by
  cases v with
  | true => rcases ps with _ | ⟨p, _ | ⟨q, ps⟩⟩ <;> rfl
  | false =>
    rcases ps with _ | ⟨p, _ | ⟨q, ps⟩⟩
    · rfl
    · cases h : p.2.isPlainVoid <;> simp [declared, plainParams, h]
    · rfl

/-- It makes no difference whether a lone `void` has been left out before. -/
theorem declared_declared (ps : List (Name × CanonicalType)) (v : Bool) :
    declared (declared ps v) false = declared ps false := by
  cases v with
  | true => rcases ps with _ | ⟨p, _ | ⟨q, ps⟩⟩ <;> rfl
  | false =>
    rcases ps with _ | ⟨p, _ | ⟨q, ps⟩⟩
    · rfl
    · cases h : p.2.isPlainVoid <;> simp [declared, h]
    · rfl

/-- Erasure takes stamps and the flags of functions without a prototype out by itself, and a void
parameter that it leaves in a variadic prototype goes once the flag is gone. -/
theorem erased_plain_erased (t : CanonicalType) : t.erased.plain.erased = t.plain.erased := by
  induction t using induct with
  | base qs b => cases b <;> rfl
  | pointer qs t ih => simp [erased, plain, ih]
  | array qs t n ih => simp [erased, plain, ih]
  | function qs r ps v ihr ihps =>
    have hps : erasedParams (plainParams (erasedParams ps)) = erasedParams (plainParams ps) := by
      simp only [erasedParams_eq_map, plainParams_eq_map, List.map_map]
      exact List.map_congr_left fun p hp => by simp [ihps p hp]
    simp only [erased, plain, ihr]
    rw [← declared_plainParams, ← declared_erasedParams, declared_declared, hps]
  | unprototyped qs r v ih => simp [erased, plain, ih]

/-! ## What a key sees -/

/-- What the types of one key have in common. -/
def reduced : KeyMode → CanonicalType → CanonicalType
  | .spelling, t => t.erased
  | .structural, t => t

/-- Types have the same key exactly if the key sees the same of them. -/
theorem key_eq_iff (mode : KeyMode) (t u : CanonicalType) :
    TypeKey.of mode t = TypeKey.of mode u ↔ t.reduced mode = u.reduced mode := by
  cases mode with
  | spelling =>
    rw [TypeKey.of_spelling_inj]
    exact ⟨erased_eq_of_spelling_eq, spelling_eq_of_erased_eq⟩
  | structural => exact TypeKey.of_structural_inj

/-- If a key sees the same of two types, then also of what is held of them. -/
theorem reduced_plain_congr {mode : KeyMode} {t u : CanonicalType}
    (h : t.reduced mode = u.reduced mode) : t.plain.reduced mode = u.plain.reduced mode := by
  cases mode with
  | spelling =>
    have ht := erased_plain_erased t
    rw [show t.erased = u.erased from h, erased_plain_erased] at ht
    exact ht.symm
  | structural => exact congrArg plain h

variable (mode : KeyMode)

/-- A key sees through a pointer. -/
theorem reduced_pointer (qs : List Qualifier) (t : CanonicalType) :
    reduced mode (.pointer qs t) = .pointer qs (t.reduced mode) := by
  cases mode <;> rfl

theorem reduced_array (qs : List Qualifier) (t : CanonicalType) (n : Option Nat) :
    reduced mode (.array qs t n) = .array qs (t.reduced mode) n := by
  cases mode <;> rfl

theorem reduced_unprototyped (qs : List Qualifier) (r : CanonicalType) :
    reduced mode (.unprototyped qs r false) = .unprototyped qs (r.reduced mode) false := by
  cases mode <;> rfl

/-- A key sees the qualifiers of the outermost layer. -/
theorem reduced_withAttrs (qs : List Qualifier) (t : CanonicalType) :
    reduced mode (t.withAttrs qs) = (t.reduced mode).withAttrs qs := by
  cases mode with
  | spelling => exact withAttrs_erased qs t
  | structural => rfl

/-- A key sees all the qualifiers. -/
theorem attrs_reduced (t : CanonicalType) : (t.reduced mode).attrs = t.attrs := by
  cases mode with
  | spelling => exact attrs_erased t
  | structural => rfl

/-- A type that looks like an array to a key is an array. -/
theorem exists_of_reduced_eq_array {mode : KeyMode} {qs : List Qualifier} {t e : CanonicalType}
    {n : Option Nat} (h : t.reduced mode = .array qs e n) : ∃ e', t = .array qs e' n := by
  cases mode with
  | spelling =>
    cases t <;> simp only [reduced, erased, array.injEq, reduceCtorEq] at h
    obtain ⟨rfl, -, rfl⟩ := h
    exact ⟨_, rfl⟩
  | structural => exact ⟨e, h⟩

@[simp] theorem attrs_plain (t : CanonicalType) : t.plain.attrs = t.attrs := by
  cases t <;> rfl

/-- The qualifiers of the outermost layer are held as they are. -/
theorem plain_withAttrs (qs : List Qualifier) (t : CanonicalType) :
    (t.withAttrs qs).plain = t.plain.withAttrs qs := by
  cases t <;> rfl

/-- The prototypes of functions agree if their results and parameters do, one by one. -/
theorem reduced_function_congr {r r' : CanonicalType} {ps ps' : List (Name × CanonicalType)}
    (hr : r.reduced mode = r'.reduced mode)
    (hps : List.Forall₂ (fun p p' => p.1 = p'.1 ∧ p.2.reduced mode = p'.2.reduced mode) ps ps') :
    reduced mode (.function [] r ps false) = reduced mode (.function [] r' ps' false) := by
  cases mode with
  | spelling =>
    have : erasedParams ps = erasedParams ps' := by
      induction hps with
      | nil => rfl
      | cons h _ ih => exact congrArg₂ List.cons (congrArg (Prod.mk Name.empty) h.2) ih
    have hr : r.erased = r'.erased := hr
    simp [reduced, erased, hr, this]
  | structural =>
    have : ps = ps' := by
      induction hps with
      | nil => rfl
      | cons h _ ih => exact congrArg₂ List.cons (Prod.ext h.1 h.2) ih
    have hr : r = r' := hr
    simp [hr, this]

end TypeExpr

/-! ## Unfolding a descriptor -/

namespace Descriptor

/-- An array of arrays, outermost first. -/
def nested (lengths : List (Option Nat)) (element : CanonicalType) : CanonicalType :=
  lengths.foldr (fun n t => .array [] t n) element

/-- The result of a function; none stands for `void`. -/
def unfoldResult (f : EntryId → Option CanonicalType) : Option EntryId → Option CanonicalType
  | none => some (.base [] .void)
  | some id => f id

def unfoldParams (f : EntryId → Option CanonicalType) (ps : List (Name × EntryId)) :
    Option (List (Name × CanonicalType)) :=
  ps.mapM fun p => (f p.2).map (p.1, ·)

/-- The type that a descriptor stands for, where `f` says what the ids in it stand for. -/
def unfoldWith (f : EntryId → Option CanonicalType) : Descriptor → Option CanonicalType
  | .void => some (.base [] .void)
  | .integer kind => some (.base [] (.integer kind))
  | .floating kind => some (.base [] (.floating kind))
  | .pointer target => (f target).map (.pointer [])
  | .array element lengths => (f element).map (nested lengths)
  | .composite c => some (.base [] (.composite c.kind c.tag ⟨0⟩))
  | .enumeration e => some (.base [] (.enumeration e.tag ⟨0⟩))
  | .function result none => (unfoldResult f result).map (.unprototyped [] · false)
  | .function result (some ps) =>
      (unfoldResult f result).bind fun r => (unfoldParams f ps).map (.function [] r · false)
  | .alias a => some (.base [] (.alias a.name ⟨0⟩))
  | .qualified q inner => (f inner).map (TypeExpr.addAttr q)

variable {f g : EntryId → Option CanonicalType}

/-- A result that unfolds does so also if more ids unfold. -/
theorem unfoldResult_mono (h : ∀ id t, f id = some t → g id = some t) {result : Option EntryId}
    {t : CanonicalType} (ht : unfoldResult f result = some t) :
    unfoldResult g result = some t := by
  cases result with
  | none => exact ht
  | some id => exact h id t ht

/-- Parameters unfold one by one. -/
theorem unfoldParams_cons_eq_some {p : Name × EntryId} {ps : List (Name × EntryId)}
    {us : List (Name × CanonicalType)} :
    unfoldParams f (p :: ps) = some us ↔
      ∃ t us', f p.2 = some t ∧ unfoldParams f ps = some us' ∧ us = (p.1, t) :: us' := by
  simp only [unfoldParams, List.mapM_cons, Option.bind_eq_bind, Option.bind_eq_some_iff,
    Option.map_eq_some_iff]
  constructor
  · rintro ⟨_, ⟨t, ht, rfl⟩, us', hus, hu⟩
    exact ⟨t, us', ht, hus, (Option.some.inj hu).symm⟩
  · rintro ⟨t, us', ht, hus, rfl⟩
    exact ⟨_, ⟨t, ht, rfl⟩, us', hus, rfl⟩

theorem unfoldParams_mono (h : ∀ id t, f id = some t → g id = some t)
    {ps : List (Name × EntryId)} {us : List (Name × CanonicalType)}
    (hu : unfoldParams f ps = some us) : unfoldParams g ps = some us := by
  induction ps generalizing us with
  | nil => exact hu
  | cons p ps ih =>
    obtain ⟨t, us', ht, hus, rfl⟩ := unfoldParams_cons_eq_some.1 hu
    exact unfoldParams_cons_eq_some.2 ⟨t, us', h _ _ ht, ih hus, rfl⟩

/-- Knowing more ids does not change what a descriptor stands for. -/
theorem unfoldWith_mono (h : ∀ id t, f id = some t → g id = some t) {d : Descriptor}
    {t : CanonicalType} (ht : d.unfoldWith f = some t) : d.unfoldWith g = some t := by
  cases d with
  | pointer target =>
    obtain ⟨u, hu, rfl⟩ := Option.map_eq_some_iff.1 ht
    exact Option.map_eq_some_iff.2 ⟨u, h _ _ hu, rfl⟩
  | array element lengths =>
    obtain ⟨u, hu, rfl⟩ := Option.map_eq_some_iff.1 ht
    exact Option.map_eq_some_iff.2 ⟨u, h _ _ hu, rfl⟩
  | qualified q inner =>
    obtain ⟨u, hu, rfl⟩ := Option.map_eq_some_iff.1 ht
    exact Option.map_eq_some_iff.2 ⟨u, h _ _ hu, rfl⟩
  | function result params =>
    cases params with
    | none =>
      obtain ⟨r, hr, rfl⟩ := Option.map_eq_some_iff.1 ht
      exact Option.map_eq_some_iff.2 ⟨r, unfoldResult_mono h hr, rfl⟩
    | some ps =>
      obtain ⟨r, hr, ht⟩ := Option.bind_eq_some_iff.1 ht
      obtain ⟨us, hus, rfl⟩ := Option.map_eq_some_iff.1 ht
      refine Option.bind_eq_some_iff.2 ⟨r, unfoldResult_mono h hr, ?_⟩
      exact Option.map_eq_some_iff.2 ⟨us, unfoldParams_mono h hus, rfl⟩
  | _ => exact ht

/-- An update leaves what a descriptor stands for as it is. -/
theorem unfoldWith_result? {u : TypeUpdate} {d d' : Descriptor} (h : u.result? d = some d') :
    d'.unfoldWith f = d.unfoldWith f := by
  cases u <;> cases d <;> simp only [TypeUpdate.result?, Option.some.injEq, reduceCtorEq] at h <;>
    subst h <;> rfl

end Descriptor

/-! ## Unfolding an id -/

namespace TypeTable

/-- The type that an id leads to, if following ids ends within `n` steps. -/
def unfold (table : TypeTable) : Nat → EntryId → Option CanonicalType
  | 0, _ => none
  | n + 1, id => (table.get? id).bind (·.unfoldWith (table.unfold n))

/-- Nothing is forgotten: types keep their ids, and ids stand for what they stood for. -/
structure Extends (a b : TypeTable) : Prop where
  mode : b.mode = a.mode
  descriptor : ∀ id d, a.get? id = some d →
    ∃ d', b.get? id = some d' ∧ ∀ f, d'.unfoldWith f = d.unfoldWith f
  key : ∀ (k : TypeKey) (id : EntryId), a.keys[k]? = some id → b.keys[k]? = some id

theorem Extends.refl (a : TypeTable) : Extends a a :=
  ⟨rfl, fun _ d h => ⟨d, h, fun _ => rfl⟩, fun _ _ h => h⟩

theorem Extends.trans {a b c : TypeTable} (hab : Extends a b) (hbc : Extends b c) :
    Extends a c := by
  refine ⟨hbc.mode.trans hab.mode, ?_, fun k id h => hbc.key k id (hab.key k id h)⟩
  intro id d h
  obtain ⟨d', h', hd'⟩ := hab.descriptor id d h
  obtain ⟨d'', h'', hd''⟩ := hbc.descriptor id d' h'
  exact ⟨d'', h'', fun f => (hd'' f).trans (hd' f)⟩

/-- What is found is found in an extension. -/
theorem Extends.find? {a b : TypeTable} (h : Extends a b) {t : CanonicalType} {id : EntryId}
    (ht : a.find? t = some id) : b.find? t = some id := by
  rw [TypeTable.find?, h.mode]
  exact h.key _ _ ht

/-- An id that unfolds does so in an extension, and to any greater depth. -/
theorem unfold_mono {a b : TypeTable} (h : Extends a b) {n m : Nat} (hn : n ≤ m) {id : EntryId}
    {t : CanonicalType} (ht : a.unfold n id = some t) : b.unfold m id = some t := by
  induction n generalizing m id t with
  | zero => simp [unfold] at ht
  | succ n ih =>
    obtain ⟨m, rfl⟩ : ∃ k, m = k + 1 := ⟨m - 1, by omega⟩
    obtain ⟨d, hd, ht⟩ := Option.bind_eq_some_iff.1 ht
    obtain ⟨d', hd', hsame⟩ := h.descriptor id d hd
    refine Option.bind_eq_some_iff.2 ⟨d', hd', ?_⟩
    rw [hsame]
    exact Descriptor.unfoldWith_mono (fun id t => ih (by omega)) ht

end TypeTable

end DebugInfo
