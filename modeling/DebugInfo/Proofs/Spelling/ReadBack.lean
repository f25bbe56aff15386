import DebugInfo.Proofs.Spelling.Reader

/-!
# Reading a spelling back

The spelling of a type can be read back: `read_spelling` recovers the type up to what the spelling
leaves out.  So types that are spelled alike are the same after erasure
(`erased_eq_of_spelling_eq`), and a spelling confuses no more than that.

The induction is over the type.  A layer is spelled behind the type it is put on, so what is
claimed of a type (`ReadsBack`) leaves open what follows its spelling, as long as that does not
prolong the last word.
-/

namespace DebugInfo.Reader

open TypeExpr

/-! ## Base types -/

/-- A parameter that is not the first one has a space in front of it. -/
def IsLead (cs : List Char) : Prop := cs = [] ∨ cs = [' ']

/-- Wherever a type may begin, its spelling is read as what is left of it after erasure. -/
def ReadsBack (t : CanonicalType) : Prop :=
  ∀ (lead : List Char) (fs : List Frame) (r : List Char), IsLead lead → Ended r →
    readFrom (.start fs) (lead ++ (t.spelling.toList ++ r)) = readFrom (.type t.erased fs) r

/-- The word of a base type with its qualifiers. -/
def baseWord (qs : List Qualifier) (b : BaseType) : List Char :=
  (qualifiersBefore qs).toList ++ b.spelling.toList

/-- It begins neither with a space nor with a dot, so it is not taken for a parameter that is not the
first one or for an ellipsis. -/
def beginsType : List Char → Bool
  | [] => false
  | c :: _ => c != ' ' && c != '.'

theorem beginsType_append {w : List Char} (h : beginsType w = true) (r : List Char) :
    beginsType (w ++ r) = true := by
  cases w with
  | nil => cases h
  | cons c w => exact h

theorem beginsType_spelling (b : BaseType) : beginsType b.spelling.toList = true := by
  cases b with
  | void => rfl
  | integer kind => cases kind <;> rfl
  | floating kind => cases kind <;> rfl
  | composite kind tag stamp =>
    rw [BaseType.spelling, toList_keyword_text]
    cases kind <;> rfl
  | _ =>
    rw [BaseType.spelling, toList_append_text]
    rfl

/-- A base type begins like a type, also with qualifiers in front. -/
theorem beginsType_baseWord (qs : List Qualifier) (b : BaseType) :
    beginsType (baseWord qs b) = true := by
  cases qs with
  | nil => exact beginsType_spelling b
  | cons q qs =>
    have hq : beginsType q.keyword.toList = true := by cases q <;> rfl
    rw [baseWord, qualifiersBefore, String.toList_append, String.toList_append]
    exact beginsType_append (beginsType_append (beginsType_append hq _) _) _

theorem exists_baseWord_eq_cons (qs : List Qualifier) (b : BaseType) :
    ∃ c cs, baseWord qs b = c :: cs ∧ c ≠ ' ' ∧ c ≠ '.' := by
  have h := beginsType_baseWord qs b
  cases hw : baseWord qs b with
  | nil => rw [hw] at h; cases h
  | cons c cs => exact ⟨c, cs, rfl, by simpa [hw, beginsType] using h⟩

theorem isWord_lead_append {lead w : List Char} (hl : IsLead lead) (hw : IsWord w) :
    IsWord (lead ++ w) := by
  refine ⟨by simp [hw.ne_nil], ?_⟩
  rcases hl with rfl | rfl
  · exact hw.unmarked_eq
  · rw [unmarked_append, hw.unmarked_eq]
    rfl

/-- A base type with its qualifiers is one word. -/
theorem isWord_baseWord (qs : List Qualifier) (b : BaseType) : IsWord (baseWord qs b) := by
  obtain ⟨c, cs, h, -, -⟩ := exists_baseWord_eq_cons qs b
  refine ⟨by simp [h], ?_⟩
  rw [baseWord, unmarked_append, unmarked_qualifiersBefore, unmarked_spelling]
  rfl

/-- The first word of a type is read as its base type. -/
theorem first_baseWord (qs : List Qualifier) (b : BaseType) (fs : List Frame) :
    first (baseWord qs b) fs = some (.type (.base qs b.unstamped) fs) := by
  obtain ⟨c, cs, h, -, hdot⟩ := exists_baseWord_eq_cons qs b
  have hne : baseWord qs b ≠ ['.', '.', '.'] := by
    rw [h]
    intro e
    exact hdot (List.cons.inj e).1
  rw [first, if_neg hne, baseWord, qualifiersInFront_append, baseType?_spelling]
  rfl

/-- The first word of a type may follow a space. -/
theorem step_start_baseWord {lead : List Char} (hl : IsLead lead) (qs : List Qualifier)
    (b : BaseType) (fs : List Frame) :
    step (.start fs) (.word (lead ++ baseWord qs b)) =
      some (.type (.base qs b.unstamped) fs) := by
  rw [← first_baseWord]
  rcases hl with rfl | rfl
  · obtain ⟨c, cs, h, hspace, -⟩ := exists_baseWord_eq_cons qs b
    rw [List.nil_append, h]
    simp [step, hspace]
  · rfl

/-- A base type is read back. -/
theorem readsBack_base (qs : List Qualifier) (b : BaseType) : ReadsBack (.base qs b) := by
  intro lead fs r hl hr
  have htext : lead ++ ((spelling (.base qs b)).toList ++ r) = (lead ++ baseWord qs b) ++ r := by
    simp [spelling, baseWord]
  rw [htext, readFrom_word _ (isWord_lead_append hl (isWord_baseWord qs b)) hr,
    step_start_baseWord hl]
  rfl

/-- Qualifiers behind a layer are read as its qualifiers. -/
theorem readFrom_qualifiersAfter {t : CanonicalType} (ht : t.attrs = []) (qs : List Qualifier)
    (fs : List Frame) {r : List Char} (hr : Ended r) :
    readFrom (.type t fs) ((qualifiersAfter qs).toList ++ r) =
      readFrom (.type (t.withAttrs qs) fs) r := by
  cases qs with
  | nil =>
    rw [← ht, withAttrs_attrs]
    simp [ht, qualifiersAfter]
  | cons q qs =>
    have hw : IsWord (qualifiersAfter (q :: qs)).toList :=
      ⟨by simp [qualifiersAfter], unmarked_qualifiersAfter _⟩
    rw [readFrom_word _ hw hr]
    simp [step, qualifiersBehind_toList]

/-! ## Layers -/

/-- A pointer is read back if what it points to is. -/
theorem readsBack_pointer {t : CanonicalType} (ih : ReadsBack t) (qs : List Qualifier) :
    ReadsBack (.pointer qs t) := by
  intro lead fs r hl hr
  have htext : (spelling (.pointer qs t)).toList ++ r =
      t.spelling.toList ++ ('*' :: ((qualifiersAfter qs).toList ++ r)) := by
    simp [spelling]
  rw [htext, ih lead fs _ hl (ended_cons rfl), readFrom_mark _ rfl]
  exact readFrom_qualifiersAfter (t := .pointer [] t.erased) rfl qs fs hr

theorem readsBack_array {t : CanonicalType} (ih : ReadsBack t) (qs : List Qualifier)
    (n : Option Nat) : ReadsBack (.array qs t n) := by
  intro lead fs r hl hr
  have hlast : readFrom (.bracket t.erased n fs) (']' :: ((qualifiersAfter qs).toList ++ r)) =
      readFrom (.type (.array qs t.erased n) fs) r := by
    rw [readFrom_mark _ rfl]
    have := readFrom_qualifiersAfter (t := .array [] t.erased n) rfl qs fs hr
    cases n <;> exact this
  cases n with
  | none =>
    have htext : (spelling (.array qs t none)).toList ++ r =
        t.spelling.toList ++ ('[' :: ']' :: ((qualifiersAfter qs).toList ++ r)) := by
      simp [spelling, lengthSpelling]
    rw [htext, ih lead fs _ hl (ended_cons rfl), readFrom_mark _ rfl]
    exact hlast
  | some n =>
    have htext : (spelling (.array qs t (some n))).toList ++ r =
        t.spelling.toList ++ ('[' :: (Nat.toDigits 10 n ++
          (']' :: ((qualifiersAfter qs).toList ++ r)))) := by
      simp [spelling, lengthSpelling]
    rw [htext, ih lead fs _ hl (ended_cons rfl), readFrom_mark _ rfl]
    simp only [step, Option.bind_some]
    rw [readFrom_word _ (isWord_toDigits n) (ended_cons rfl)]
    simp only [step, Option.bind_some, number_toDigits]
    exact hlast

theorem readsBack_unprototyped {t : CanonicalType} (ih : ReadsBack t) (qs : List Qualifier)
    (v : Bool) : ReadsBack (.unprototyped qs t v) := by
  intro lead fs r hl hr
  have htext : (spelling (.unprototyped qs t v)).toList ++ r =
      t.spelling.toList ++ ('(' :: ')' :: ((qualifiersAfter qs).toList ++ r)) := by
    simp [spelling]
  rw [htext, ih lead fs _ hl (ended_cons rfl), readFrom_mark _ rfl]
  simp only [step, Option.bind_some]
  rw [readFrom_mark _ rfl]
  exact readFrom_qualifiersAfter (t := .unprototyped [] t.erased false) rfl qs fs hr

/-! ## Prototypes -/

/-- What is spelled between the parentheses of a prototype that does not say `void`. -/
def items (ps : List (Name × CanonicalType)) (v : Bool) : List String :=
  paramSpellings ps ++ if v then ["..."] else []

theorem items_eq_nil {ps : List (Name × CanonicalType)} {v : Bool} (h : items ps v = []) :
    ps = [] ∧ v = false := by
  cases ps with
  | nil => cases v with
    | false => exact ⟨rfl, rfl⟩
    | true => cases h
  | cons p ps => cases h

theorem paramsSpelling_of_ne_nil {ps : List (Name × CanonicalType)} {v : Bool}
    (h : items ps v ≠ []) :
    paramsSpelling (paramSpellings ps) v = ", ".intercalate (items ps v) := by
  have hitems : (if v then paramSpellings ps ++ ["..."] else paramSpellings ps) = items ps v := by
    cases v <;> simp [items]
  rw [paramsSpelling, hitems]
  split
  · next h' => exact absurd h' h
  · rfl

/-- The parameters that are left to read, behind those that have been read. -/
theorem readFrom_items {ps : List (Name × CanonicalType)} {v : Bool}
    (ih : ∀ p ∈ ps, ReadsBack p.2) (hne : items ps v ≠ []) {lead : List Char} (hl : IsLead lead)
    (result : CanonicalType) (ts : List CanonicalType) (fs : List Frame) (r : List Char) :
    readFrom (.start (⟨result, ts⟩ :: fs))
        (lead ++ ((", ".intercalate (items ps v)).toList ++ (')' :: r))) =
      readFrom (.type (prototype result ((ps.map fun p => p.2.erased).reverse ++ ts) v) fs) r := by
  induction ps generalizing ts lead with
  | nil =>
    cases v with
    | false => exact absurd rfl hne
    | true =>
      have hw : IsWord ['.', '.', '.'] := ⟨List.cons_ne_nil _ _, rfl⟩
      have htext : lead ++ ((", ".intercalate (items [] true)).toList ++ (')' :: r)) =
          (lead ++ ['.', '.', '.']) ++ (')' :: r) := by
        simp [items, paramSpellings]
      rw [htext, readFrom_word _ (isWord_lead_append hl hw) (ended_cons rfl)]
      have hstep : step (.start (⟨result, ts⟩ :: fs)) (.word (lead ++ ['.', '.', '.'])) =
          some (.ellipsis (⟨result, ts⟩ :: fs)) := by
        rcases hl with rfl | rfl <;> rfl
      rw [hstep, Option.bind_some, readFrom_mark _ rfl]
      rfl
  | cons p ps ihs =>
    have hp : ReadsBack p.2 := ih p List.mem_cons_self
    by_cases hrest : items ps v = []
    · -- the last parameter, and no ellipsis behind it
      obtain ⟨rfl, rfl⟩ := items_eq_nil hrest
      have htext : (", ".intercalate (items [p] false)).toList = p.2.spelling.toList := by
        simp [items, paramSpellings]
      rw [htext, hp lead _ _ hl (ended_cons rfl), readFrom_mark _ rfl]
      rfl
    · have htext : (", ".intercalate (items (p :: ps) v)).toList ++ (')' :: r) =
          p.2.spelling.toList ++ (',' :: ([' '] ++
            ((", ".intercalate (items ps v)).toList ++ (')' :: r)))) := by
        have : items (p :: ps) v = p.2.spelling :: items ps v := rfl
        rw [this, String.intercalate_cons_of_ne_nil hrest]
        simp
      rw [htext, hp lead _ _ hl (ended_cons rfl), readFrom_mark _ rfl]
      simp only [step, Option.bind_some]
      rw [ihs (fun p hp => ih p (List.mem_cons_of_mem _ hp)) hrest (.inr rfl)]
      simp

/-- The parameters of a prototype are read, up to the mark that ends them. -/
theorem readFrom_params {ps : List (Name × CanonicalType)} (ih : ∀ p ∈ ps, ReadsBack p.2)
    (v : Bool) (result : CanonicalType) (fs : List Frame) (r : List Char) :
    readFrom (.start (⟨result, []⟩ :: fs))
        ((paramsSpelling (paramSpellings ps) v).toList ++ (')' :: r)) =
      readFrom (.type (.function [] result (declared (erasedParams ps) v) v) fs) r := by
  by_cases hne : items ps v = []
  · obtain ⟨rfl, rfl⟩ := items_eq_nil hne
    have hvoid := readsBack_base [] .void [] (⟨result, []⟩ :: fs) (')' :: r) (.inl rfl)
      (ended_cons rfl)
    rw [spelling_void, List.nil_append] at hvoid
    rw [show paramsSpelling (paramSpellings []) false = "void" from rfl, hvoid,
      readFrom_mark _ rfl]
    rfl
  · have h := readFrom_items ih hne (.inl rfl) result [] fs r
    rw [List.nil_append] at h
    rw [paramsSpelling_of_ne_nil hne, h]
    simp [prototype, erasedParams_eq_map, Function.comp_def]

/-- A function is read back if its result and its parameters are. -/
theorem readsBack_function {t : CanonicalType} {ps : List (Name × CanonicalType)}
    (iht : ReadsBack t) (ihps : ∀ p ∈ ps, ReadsBack p.2) (qs : List Qualifier) (v : Bool) :
    ReadsBack (.function qs t ps v) := by
  intro lead fs r hl hr
  have htext : (spelling (.function qs t ps v)).toList ++ r =
      t.spelling.toList ++ ('(' :: ((paramsSpelling (paramSpellings ps) v).toList ++
        (')' :: ((qualifiersAfter qs).toList ++ r)))) := by
    simp [spelling]
  rw [htext, iht lead fs _ hl (ended_cons rfl), readFrom_mark _ rfl]
  simp only [step, Option.bind_some]
  rw [readFrom_params ihps]
  exact readFrom_qualifiersAfter (t := .function [] t.erased _ v) rfl qs fs hr

/-! ## All types -/

/-- Every type is read back. -/
theorem readsBack (t : CanonicalType) : ReadsBack t := by
  induction t using TypeExpr.induct with
  | base qs b => exact readsBack_base qs b
  | pointer qs t ih => exact readsBack_pointer ih qs
  | array qs t n ih => exact readsBack_array ih qs n
  | function qs t ps v iht ihps => exact readsBack_function iht ihps qs v
  | unprototyped qs t v ih => exact readsBack_unprototyped ih qs v

/-- The reader finds in the spelling of a type all that is not erased. -/
theorem read_spelling (t : CanonicalType) : read t.spelling = some t.erased := by
  have h := readsBack t [] [] [] (.inl rfl) ended_nil
  rw [List.append_nil, List.nil_append] at h
  rw [read, h]
  rfl

example : read "struct #4*(int* const, typedef #7[16], ...) volatile" =
    some (.function [.volatile] (.pointer [] (.base [] (.composite .struct ⟨4⟩ ⟨0⟩)))
      [(⟨0⟩, .pointer [.const] (.base [] (.integer .int))),
        (⟨0⟩, .array [] (.base [] (.alias ⟨7⟩ ⟨0⟩)) (some 16))] true) := by
  rfl

end DebugInfo.Reader

/-! ## What a spelling keeps apart -/

namespace DebugInfo.TypeExpr

/-- Types that are spelled alike differ in nothing but what is erased. -/
theorem erased_eq_of_spelling_eq {t u : CanonicalType} (h : t.spelling = u.spelling) :
    t.erased = u.erased := by
  have ht := Reader.read_spelling t
  rw [h, Reader.read_spelling u] at ht
  exact (Option.some.inj ht).symm

/-- Types that differ in nothing but what is erased are spelled alike. -/
theorem spelling_eq_of_erased_eq {t u : CanonicalType} (h : t.erased = u.erased) :
    t.spelling = u.spelling := by
  rw [← spelling_erased t, h, spelling_erased u]

/-- The outermost layers agree in all that is spelled of them, and so do the spellings of what they
are put on. -/
def SameLayer : CanonicalType → CanonicalType → Prop
  | .base qs b, .base qs' b' => qs = qs' ∧ b.unstamped = b'.unstamped
  | .pointer qs t, .pointer qs' t' => qs = qs' ∧ t.spelling = t'.spelling
  | .array qs t n, .array qs' t' n' => qs = qs' ∧ t.spelling = t'.spelling ∧ n = n'
  | .function qs r ps v, .function qs' r' ps' v' =>
      qs = qs' ∧ r.spelling = r'.spelling ∧
        paramSpellings (declared ps v) = paramSpellings (declared ps' v') ∧ v = v'
  | .unprototyped qs r _, .unprototyped qs' r' _ => qs = qs' ∧ r.spelling = r'.spelling
  | _, _ => False

/-- Types that differ in nothing but what is erased have the same outermost layer. -/
theorem sameLayer_of_erased_eq {t u : CanonicalType} (h : t.erased = u.erased) :
    SameLayer t u := by
  cases t with
  | base qs b =>
    cases u <;> simp only [erased, base.injEq, reduceCtorEq] at h
    exact h
  | pointer qs t =>
    cases u <;> simp only [erased, pointer.injEq, reduceCtorEq] at h
    exact ⟨h.1, spelling_eq_of_erased_eq h.2⟩
  | array qs t n =>
    cases u <;> simp only [erased, array.injEq, reduceCtorEq] at h
    exact ⟨h.1, spelling_eq_of_erased_eq h.2.1, h.2.2⟩
  | function qs r ps v =>
    cases u <;> simp only [erased, function.injEq, reduceCtorEq] at h
    obtain ⟨hqs, hr, hps, hv⟩ := h
    have hparams := congrArg paramSpellings hps
    simp only [declared_erasedParams, paramSpellings_erasedParams] at hparams
    exact ⟨hqs, spelling_eq_of_erased_eq hr, hparams, hv⟩
  | unprototyped qs r v =>
    cases u <;> simp only [erased, unprototyped.injEq, reduceCtorEq] at h
    exact ⟨h.1, spelling_eq_of_erased_eq h.2.1⟩

/-- Types with the same outermost layer are spelled alike. -/
theorem spelling_eq_of_sameLayer {t u : CanonicalType} (h : SameLayer t u) :
    t.spelling = u.spelling := by
  cases t with
  | base qs b =>
    cases u <;> simp only [SameLayer] at h
    rw [spelling, spelling, h.1, ← BaseType.spelling_unstamped b, h.2,
      BaseType.spelling_unstamped]
  | pointer qs t =>
    cases u <;> simp only [SameLayer] at h
    rw [spelling, spelling, h.1, h.2]
  | array qs t n =>
    cases u <;> simp only [SameLayer] at h
    rw [spelling, spelling, h.1, h.2.1, h.2.2]
  | function qs r ps v =>
    cases u <;> simp only [SameLayer] at h
    obtain ⟨hqs, hr, hps, hv⟩ := h
    rw [spelling, spelling, ← paramsSpelling_declared ps, hqs, hr, hps, hv,
      paramsSpelling_declared]
  | unprototyped qs r v =>
    cases u <;> simp only [SameLayer] at h
    rw [spelling, spelling, h.1, h.2]

/-- Two types are spelled alike if they are the same after erasure, and only then.  Layer by layer
this says what a spelling keeps: the qualifiers of the layer in their order, the base type down to
its names, the length of an array or its absence, whether the parameters of a function are declared
and which they are, and whether more may follow them. -/
theorem spelling_eq_iff (t u : CanonicalType) :
    (t.spelling = u.spelling ↔ t.erased = u.erased) ∧
      (t.spelling = u.spelling ↔ SameLayer t u) :=
  ⟨⟨erased_eq_of_spelling_eq, spelling_eq_of_erased_eq⟩,
    ⟨fun h => sameLayer_of_erased_eq (erased_eq_of_spelling_eq h), spelling_eq_of_sameLayer⟩⟩

end DebugInfo.TypeExpr
