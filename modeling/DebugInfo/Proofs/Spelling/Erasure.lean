import DebugInfo.TypeExpr.Spelling

/-!
# What a spelling leaves out

A spelling says nothing about stamps and the names of parameters, nor about the variadic flag of a
function without a prototype, and a prototype without parameters is spelled as if it had one
parameter of type `void`.  `erased` takes all of this out of a type, at every depth.  What is left
is spelled as before (`spelling_erased`).

That nothing else is lost is the subject of `DebugInfo.Proofs.Spelling.ReadBack`.
-/

namespace DebugInfo

/-- The base type without the declaration it refers to. -/
def BaseType.unstamped : BaseType → BaseType
  | .alias name _ => .alias name ⟨0⟩
  | .composite kind tag _ => .composite kind tag ⟨0⟩
  | .enumeration tag _ => .enumeration tag ⟨0⟩
  | b => b

@[simp] theorem BaseType.spelling_unstamped (b : BaseType) :
    b.unstamped.spelling = b.spelling := by
  cases b <;> rfl

namespace TypeExpr

/-- The parameters of a prototype; a `void` that stands alone says that there are none. -/
def declared (ps : List (Name × CanonicalType)) (variadic : Bool) : List (Name × CanonicalType) :=
  match ps, variadic with
  | [p], false => if p.2.isPlainVoid then [] else [p]
  | ps, _ => ps

mutual

def erased : CanonicalType → CanonicalType
  | .base qs b => .base qs b.unstamped
  | .pointer qs t => .pointer qs t.erased
  | .array qs t n => .array qs t.erased n
  | .function qs r ps v => .function qs r.erased (declared (erasedParams ps) v) v
  | .unprototyped qs r _ => .unprototyped qs r.erased false

def erasedParams : List (Name × CanonicalType) → List (Name × CanonicalType)
  | [] => []
  | (_, t) :: ps => (Name.empty, t.erased) :: erasedParams ps

end

/-- The names of all parameters are erased, and so are their types. -/
theorem erasedParams_eq_map (ps : List (Name × CanonicalType)) :
    erasedParams ps = ps.map fun p => (Name.empty, p.2.erased) := by
  induction ps with
  | nil => rfl
  | cons p ps ih => simp [erasedParams, ih]

@[simp] theorem attrs_erased (t : CanonicalType) : t.erased.attrs = t.attrs := by
  cases t <;> rfl

/-- The qualifiers of the outermost layer are not erased. -/
theorem withAttrs_erased (qs : List Qualifier) (t : CanonicalType) :
    (t.withAttrs qs).erased = t.erased.withAttrs qs := by
  cases t <;> rfl

@[simp] theorem isPlainVoid_erased (t : CanonicalType) : t.erased.isPlainVoid = t.isPlainVoid := by
  cases t with
  | base qs b => cases b <;> rfl
  | _ => rfl

/-! ## Spelling what is left -/

@[simp] theorem spelling_void : (.base [] .void : CanonicalType).spelling = "void" := by
  simp [spelling, qualifiersBefore, BaseType.spelling]

/-- What is taken out of a parameter does not change whether it is a `void`. -/
theorem declared_erasedParams (ps : List (Name × CanonicalType)) (v : Bool) :
    declared (erasedParams ps) v = erasedParams (declared ps v) := by
  cases v with
  | true => rcases ps with _ | ⟨p, _ | ⟨q, ps⟩⟩ <;> rfl
  | false =>
    rcases ps with _ | ⟨p, _ | ⟨q, ps⟩⟩
    · rfl
    · cases h : p.2.isPlainVoid <;> simp [declared, erasedParams, h]
    · rfl

/-- A lone `void` is spelled like no parameter at all. -/
theorem paramsSpelling_declared (ps : List (Name × CanonicalType)) (v : Bool) :
    paramsSpelling (paramSpellings (declared ps v)) v = paramsSpelling (paramSpellings ps) v := by
  unfold declared
  split
  · next p =>
    split
    · next h =>
      have hp : p.2 = .base [] .void := (isPlainVoid_iff _).1 h
      simp [paramSpellings, paramsSpelling, hp]
    · rfl
  · rfl

private theorem paramSpellings_erasedParams_of {ps : List (Name × CanonicalType)}
    (h : ∀ p ∈ ps, p.2.erased.spelling = p.2.spelling) :
    paramSpellings (erasedParams ps) = paramSpellings ps := by
  rw [paramSpellings_eq_map, paramSpellings_eq_map, erasedParams_eq_map, List.map_map]
  exact List.map_congr_left h

/-- What is erased cannot be seen in the spelling. -/
theorem spelling_erased (t : CanonicalType) : t.erased.spelling = t.spelling := by
  induction t using induct with
  | base qs b => simp [erased, spelling]
  | pointer qs t ih => simp [erased, spelling, ih]
  | array qs t n ih => simp [erased, spelling, ih]
  | function qs r ps v ihr ihps =>
    have hps := paramSpellings_erasedParams_of ihps
    simp [erased, spelling, ihr, paramsSpelling_declared, hps]
  | unprototyped qs r v ih => simp [erased, spelling, ih]

theorem paramSpellings_erasedParams (ps : List (Name × CanonicalType)) :
    paramSpellings (erasedParams ps) = paramSpellings ps :=
  paramSpellings_erasedParams_of fun p _ => spelling_erased p.2

end TypeExpr

end DebugInfo
