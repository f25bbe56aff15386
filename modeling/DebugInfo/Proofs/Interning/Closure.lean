import DebugInfo.Proofs.Spelling.ReadBack
import DebugInfo.TypeTable.Basic

/-!
# The types that a type is made of

Interning a type interns the types of which it is made as well.  `closure` says which ones these
are, in two parts: the outermost layer with fewer and fewer of its qualifiers, and what is inside of
it.  An array of plain arrays shares one descriptor with them, so they are left out, and so is the
result of a function if it is `void`.

Everything inside of a type is spelled shorter than the type.
-/

namespace DebugInfo.TypeExpr

/-- The type with these qualifiers on its outermost layer, and with fewer and fewer of them. -/
def layers (t : CanonicalType) : List Qualifier → List CanonicalType
  | [] => [t.withAttrs []]
  | q :: qs => t.withAttrs (q :: qs) :: layers t qs

mutual

/-- What is inside of the outermost layer. -/
def inside : CanonicalType → List CanonicalType
  | .base _ _ => []
  | .pointer _ t => layers t t.attrs ++ inside t
  | .array _ t _ => if t.isPlainArray then inside t else layers t t.attrs ++ inside t
  | .function _ r ps _ =>
      (if r.isPlainVoid then [] else layers r r.attrs ++ inside r) ++ insideParams ps
  | .unprototyped _ r _ => if r.isPlainVoid then [] else layers r r.attrs ++ inside r

def insideParams : List (Name × CanonicalType) → List CanonicalType
  | [] => []
  | (_, t) :: ps => (layers t t.attrs ++ inside t) ++ insideParams ps

end

/-- The type itself, and the types it is made of. -/
def closure (t : CanonicalType) : List CanonicalType := layers t t.attrs ++ inside t

variable {t r u : CanonicalType}

/-- What is inside of parameters is in one of them. -/
theorem mem_insideParams {ps : List (Name × CanonicalType)} :
    u ∈ insideParams ps ↔ ∃ p ∈ ps, u ∈ closure p.2 := by
  induction ps with
  | nil => simp [insideParams]
  | cons p ps ih => simp [insideParams, ih, closure, or_assoc]

/-! ## Weight -/

/-- The length of the spelling. -/
def weight (t : CanonicalType) : Nat := t.spelling.length

/-- Types with the same key have the same weight. -/
theorem weight_eq_of_key_eq {mode : KeyMode} {t u : CanonicalType}
    (h : TypeKey.of mode t = TypeKey.of mode u) : weight t = weight u := by
  cases mode with
  | spelling => exact congrArg String.length (TypeKey.of_spelling_inj.1 h)
  | structural => exact congrArg weight (TypeKey.of_structural_inj.1 h)

/-- A pointer weighs more than what it points to. -/
theorem weight_lt_pointer (qs : List Qualifier) (t : CanonicalType) :
    weight t < weight (.pointer qs t) := by
  simp only [weight, spelling, String.length_append]
  have : "*".length = 1 := rfl
  omega

theorem weight_lt_array (qs : List Qualifier) (t : CanonicalType) (n : Option Nat) :
    weight t < weight (.array qs t n) := by
  have : 0 < (lengthSpelling n).length := by
    cases n with
    | none => decide
    | some n =>
      have : "[".length = 1 := rfl
      simp only [lengthSpelling, String.length_append]
      omega
  simp only [weight, spelling, String.length_append]
  omega

theorem weight_lt_unprototyped (qs : List Qualifier) (r : CanonicalType) (v : Bool) :
    weight r < weight (.unprototyped qs r v) := by
  simp only [weight, spelling, String.length_append]
  have : "()".length = 2 := rfl
  omega

theorem weight_result_lt_function (qs : List Qualifier) (r : CanonicalType)
    (ps : List (Name × CanonicalType)) (v : Bool) :
    weight r < weight (.function qs r ps v) := by
  simp only [weight, spelling, String.length_append]
  have : "(".length = 1 := rfl
  omega

/-- No string is longer than the one that it is joined into. -/
theorem length_le_intercalate {sep s : String} {ss : List String} (h : s ∈ ss) :
    s.length ≤ (sep.intercalate ss).length := by
  induction ss with
  | nil => simp at h
  | cons a ss ih =>
    by_cases hne : ss = []
    · subst hne
      have hs : s = a := List.mem_singleton.1 h
      subst hs
      exact Nat.le_of_eq (congrArg String.length String.intercalate_singleton.symm)
    · rw [String.intercalate_cons_of_ne_nil hne, String.length_append, String.length_append]
      rcases List.mem_cons.1 h with rfl | h
      · omega
      · have := ih h
        omega

/-- A function weighs more than each of its parameters. -/
theorem weight_param_lt_function (qs : List Qualifier) (r : CanonicalType)
    {ps : List (Name × CanonicalType)} {p : Name × CanonicalType} (hp : p ∈ ps) (v : Bool) :
    weight p.2 < weight (.function qs r ps v) := by
  have hmem : p.2.spelling ∈ Reader.items ps v := by
    rw [Reader.items, paramSpellings_eq_map]
    exact List.mem_append_left _ (List.mem_map_of_mem hp)
  have hle : p.2.spelling.length ≤ (", ".intercalate (Reader.items ps v)).length :=
    length_le_intercalate hmem
  rw [← Reader.paramsSpelling_of_ne_nil (List.ne_nil_of_mem hmem)] at hle
  simp only [weight, spelling, String.length_append]
  have : "(".length = 1 := rfl
  omega

/-- One more qualifier adds to the weight. -/
theorem weight_withAttrs_lt (q : Qualifier) (qs : List Qualifier) (t : CanonicalType) :
    weight (t.withAttrs qs) < weight (t.withAttrs (q :: qs)) := by
  have : " ".length = 1 := rfl
  cases t <;>
    simp only [weight, withAttrs, spelling, qualifiersBefore, qualifiersAfter,
      String.length_append] <;>
    omega

/-- No layer weighs more than the whole. -/
theorem weight_le_of_mem_layers {qs : List Qualifier} (h : u ∈ layers t qs) :
    weight u ≤ weight (t.withAttrs qs) := by
  induction qs with
  | nil => exact Nat.le_of_eq (congrArg weight (List.mem_singleton.1 h))
  | cons q qs ih =>
    rcases List.mem_cons.1 h with rfl | h
    · exact Nat.le_refl _
    · exact Nat.le_of_lt (Nat.lt_of_le_of_lt (ih h) (weight_withAttrs_lt q qs t))

/-- A type without its qualifiers does not weigh more. -/
theorem weight_plain_le (t : CanonicalType) (qs : List Qualifier) :
    weight (t.withAttrs []) ≤ weight (t.withAttrs qs) := by
  induction qs with
  | nil => exact Nat.le_refl _
  | cons q qs ih => exact Nat.le_of_lt (Nat.lt_of_le_of_lt ih (weight_withAttrs_lt q qs t))

/-- What is claimed of a type: its inside is lighter, even without the qualifiers around it. -/
def InsideLighter (t : CanonicalType) : Prop := ∀ u ∈ inside t, weight u < weight (t.withAttrs [])

/-- No layer, and nothing that is inside, weighs more than the type with its qualifiers. -/
theorem InsideLighter.layers {qs : List Qualifier} (h : InsideLighter t)
    (hu : u ∈ TypeExpr.layers t qs ++ inside t) : weight u ≤ weight (t.withAttrs qs) := by
  rcases List.mem_append.1 hu with hu | hu
  · exact weight_le_of_mem_layers hu
  · exact Nat.le_trans (Nat.le_of_lt (h u hu)) (weight_plain_le t qs)

/-- What a type is made of weighs no more than the type. -/
theorem InsideLighter.closure (h : InsideLighter t) (hu : u ∈ closure t) : weight u ≤ weight t := by
  have hle := h.layers hu
  rwa [withAttrs_attrs] at hle

/-- The result of a function, if it is not `void`, and what it is made of. -/
theorem InsideLighter.result (h : InsideLighter r) {n : Nat} (hn : weight r < n)
    (hu : u ∈ if r.isPlainVoid then [] else TypeExpr.closure r) : weight u < n := by
  split at hu
  · cases hu
  · exact Nat.lt_of_le_of_lt (h.closure hu) hn

/-- What is inside of a type weighs less than its outermost layer. -/
theorem insideLighter (t : CanonicalType) : InsideLighter t := by
  induction t using TypeExpr.induct with
  | base qs b => exact fun u hu => nomatch hu
  | pointer qs t ih =>
    exact fun u hu => Nat.lt_of_le_of_lt (ih.closure hu) (weight_lt_pointer [] t)
  | array qs t n ih =>
    intro u hu
    rw [inside] at hu
    split at hu
    · exact Nat.lt_of_le_of_lt (ih.closure (List.mem_append_right _ hu)) (weight_lt_array [] t n)
    · exact Nat.lt_of_le_of_lt (ih.closure hu) (weight_lt_array [] t n)
  | function qs r ps v ihr ihps =>
    intro u hu
    rcases List.mem_append.1 hu with hu | hu
    · exact ihr.result (weight_result_lt_function [] r ps v) hu
    · obtain ⟨p, hp, hu⟩ := mem_insideParams.1 hu
      exact Nat.lt_of_le_of_lt ((ihps p hp).closure hu) (weight_param_lt_function [] r hp v)
  | unprototyped qs r v ih =>
    exact fun u hu => ih.result (weight_lt_unprototyped [] r v) hu

end DebugInfo.TypeExpr
