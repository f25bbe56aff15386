import DebugInfo.Proofs.Spelling.Erasure

/-!
# A reader of spellings

A spelling is cut at its punctuation.  Between two marks stands a base type with its qualifiers, the
qualifiers of another layer, the length of an array, or an ellipsis; which of these it is follows
from what was read before, so the reader needs no lookahead.  It keeps the parentheses that are
open on a stack.

This file defines the reader and says what it makes of each word.  What it makes of the spelling of
a type is the subject of `DebugInfo.Proofs.Spelling.ReadBack`.
-/

namespace DebugInfo.Reader

open TypeExpr

/-! ## Tokens -/

inductive Token where
  | mark (c : Char)
  /-- What stands between two marks, spaces included. -/
  | word (cs : List Char)
deriving DecidableEq, Repr

def isMark (c : Char) : Bool := ['*', '[', ']', '(', ')', ','].contains c

def tokens : List Char → List Token
  | [] => []
  | c :: cs =>
    if isMark c then
      .mark c :: tokens cs
    else
      match tokens cs with
      | .word w :: ts => .word (c :: w) :: ts
      | ts => .word [c] :: ts

/-- A word ends where a mark stands or nothing follows. -/
def Ended (cs : List Char) : Prop := ∀ c ∈ cs.head?, isMark c = true

/-- No mark is among the characters. -/
def unmarked (cs : List Char) : Bool := cs.all (!isMark ·)

structure IsWord (w : List Char) : Prop where
  ne_nil : w ≠ []
  unmarked_eq : unmarked w = true

@[simp] theorem unmarked_append (cs ds : List Char) :
    unmarked (cs ++ ds) = (unmarked cs && unmarked ds) :=
  List.all_append

theorem ended_nil : Ended [] := by simp [Ended]

theorem ended_cons {c : Char} {cs : List Char} (h : isMark c = true) : Ended (c :: cs) := by
  simpa [Ended] using h

theorem tokens_mark {c : Char} (h : isMark c = true) (cs : List Char) :
    tokens (c :: cs) = .mark c :: tokens cs := by
  simp [tokens, h]

private theorem tokens_ne_word {cs : List Char} (h : Ended cs) (w : List Char)
    (ts : List Token) : tokens cs ≠ .word w :: ts := by
  cases cs with
  | nil => simp [tokens]
  | cons c cs => simp [tokens_mark (h c rfl)]

/-- A word is a token if it ends where it should. -/
theorem tokens_word {w r : List Char} (hw : IsWord w) (hr : Ended r) :
    tokens (w ++ r) = .word w :: tokens r := by
  obtain ⟨hne, hm⟩ := hw
  induction w with
  | nil => exact absurd rfl hne
  | cons c w ih =>
    obtain ⟨hc, hw⟩ : isMark c = false ∧ unmarked w = true := by simpa [unmarked] using hm
    cases w with
    | nil =>
      simp only [List.cons_append, List.nil_append, tokens, hc, Bool.false_eq_true, if_false]
      split
      · next h => exact absurd h (tokens_ne_word hr _ _)
      · rfl
    | cons d w =>
      rw [List.cons_append, tokens, hc, ih (List.cons_ne_nil d w) hw]
      rfl

/-! ## Words -/

/-- The qualifiers in front of a base type, and what follows them. -/
def qualifiersInFront : List Char → List Qualifier × List Char
  | 'c' :: 'o' :: 'n' :: 's' :: 't' :: ' ' :: cs =>
      (.const :: (qualifiersInFront cs).1, (qualifiersInFront cs).2)
  | 'v' :: 'o' :: 'l' :: 'a' :: 't' :: 'i' :: 'l' :: 'e' :: ' ' :: cs =>
      (.volatile :: (qualifiersInFront cs).1, (qualifiersInFront cs).2)
  | cs => ([], cs)

/-- The qualifiers behind any other layer. -/
def qualifiersBehind : List Char → List Qualifier
  | ' ' :: 'c' :: 'o' :: 'n' :: 's' :: 't' :: cs => .const :: qualifiersBehind cs
  | ' ' :: 'v' :: 'o' :: 'l' :: 'a' :: 't' :: 'i' :: 'l' :: 'e' :: cs =>
      .volatile :: qualifiersBehind cs
  | _ => []

def number (cs : List Char) : Nat := Nat.ofDigitChars 10 cs 0

/-- The base types that are spelled without a number. -/
def keywords : List BaseType :=
  [.void] ++
  [.bool, .char, .signedChar, .unsignedChar, .short, .unsignedShort, .int, .unsignedInt, .long,
    .unsignedLong, .longLong, .unsignedLongLong].map .integer ++
  [.float, .double, .longDouble].map .floating

def baseType? : List Char → Option BaseType
  | 't' :: 'y' :: 'p' :: 'e' :: 'd' :: 'e' :: 'f' :: ' ' :: '#' :: cs =>
      some (.alias ⟨number cs⟩ ⟨0⟩)
  | 's' :: 't' :: 'r' :: 'u' :: 'c' :: 't' :: ' ' :: '#' :: cs =>
      some (.composite .struct ⟨number cs⟩ ⟨0⟩)
  | 'u' :: 'n' :: 'i' :: 'o' :: 'n' :: ' ' :: '#' :: cs =>
      some (.composite .union ⟨number cs⟩ ⟨0⟩)
  | 'e' :: 'n' :: 'u' :: 'm' :: ' ' :: '#' :: cs =>
      some (.enumeration ⟨number cs⟩ ⟨0⟩)
  | cs => keywords.find? fun b => b.spelling.toList = cs

/-- The digits of a number are read as the number. -/
@[simp] theorem number_toDigits (n : Nat) : number (Nat.toDigits 10 n) = n :=
  Nat.ofDigitChars_ten_toDigits

theorem isDigit_of_isMark {c : Char} (h : isMark c = true) : c.isDigit = false := by
  have : c = '*' ∨ c = '[' ∨ c = ']' ∨ c = '(' ∨ c = ')' ∨ c = ',' := by simpa [isMark] using h
  rcases this with rfl | rfl | rfl | rfl | rfl | rfl <;> rfl

theorem unmarked_toDigits (n : Nat) : unmarked (Nat.toDigits 10 n) = true := by
  refine List.all_eq_true.2 fun c hc => ?_
  have hdigit : c.isDigit = true := Nat.isDigit_of_mem_toDigits (by decide) (by decide) hc
  cases hmark : isMark c with
  | false => rfl
  | true => rw [isDigit_of_isMark hmark] at hdigit; cases hdigit

/-- The digits of a number are a word. -/
theorem isWord_toDigits (n : Nat) : IsWord (Nat.toDigits 10 n) :=
  ⟨Nat.toDigits_ne_nil, unmarked_toDigits n⟩

/-! ## The words of base types -/

/-- A name is spelled by its number. -/
theorem toList_append_text (s : String) (name : Name) :
    (s ++ name.text).toList = s.toList ++ Nat.toDigits 10 name.raw := by
  simp [Ident.text]

theorem toList_keyword_text (kind : CompositeKind) (name : Name) :
    (kind.keyword ++ " #" ++ name.text).toList =
      kind.keyword.toList ++ ([' ', '#'] ++ Nat.toDigits 10 name.raw) := by
  simp [Ident.text]

/-- The spelling of a base type is read as the type, up to its stamp. -/
theorem baseType?_spelling (b : BaseType) : baseType? b.spelling.toList = some b.unstamped := by
  cases b with
  | void => rfl
  | integer kind => cases kind <;> rfl
  | floating kind => cases kind <;> rfl
  | composite kind tag stamp =>
    rw [BaseType.spelling, toList_keyword_text]
    cases kind
    · exact congrArg (fun n => some (BaseType.composite .struct ⟨n⟩ ⟨0⟩)) (number_toDigits tag.raw)
    · exact congrArg (fun n => some (BaseType.composite .union ⟨n⟩ ⟨0⟩)) (number_toDigits tag.raw)
  | enumeration tag stamp =>
    rw [BaseType.spelling, toList_append_text]
    exact congrArg (fun n => some (BaseType.enumeration ⟨n⟩ ⟨0⟩)) (number_toDigits tag.raw)
  | _ name stamp =>
    rw [BaseType.spelling, toList_append_text]
    exact congrArg (fun n => some (BaseType.alias ⟨n⟩ ⟨0⟩)) (number_toDigits name.raw)

/-- No base type is spelled like a qualifier. -/
theorem qualifiersInFront_spelling (b : BaseType) :
    qualifiersInFront b.spelling.toList = ([], b.spelling.toList) := by
  cases b with
  | void => rfl
  | integer kind => cases kind <;> rfl
  | floating kind => cases kind <;> rfl
  | composite kind tag stamp =>
    rw [BaseType.spelling, toList_keyword_text]
    cases kind <;> rfl
  | _ =>
    rw [BaseType.spelling, toList_append_text]
    rfl

/-- The qualifiers in front of a base type are read. -/
theorem qualifiersInFront_append (qs : List Qualifier) (b : BaseType) :
    qualifiersInFront ((qualifiersBefore qs).toList ++ b.spelling.toList) =
      (qs, b.spelling.toList) := by
  induction qs with
  | nil => exact qualifiersInFront_spelling b
  | cons q qs ih =>
    cases q <;> simp [qualifiersBefore, Qualifier.keyword, qualifiersInFront, ih]

/-- The qualifiers behind a layer are read. -/
theorem qualifiersBehind_toList (qs : List Qualifier) :
    qualifiersBehind (qualifiersAfter qs).toList = qs := by
  induction qs with
  | nil => rfl
  | cons q qs ih => cases q <;> simp [qualifiersAfter, Qualifier.keyword, qualifiersBehind, ih]

theorem unmarked_keyword (q : Qualifier) : unmarked q.keyword.toList = true := by
  cases q <;> rfl

theorem unmarked_qualifiersBefore (qs : List Qualifier) :
    unmarked (qualifiersBefore qs).toList = true := by
  induction qs with
  | nil => rfl
  | cons q qs ih =>
    rw [qualifiersBefore, String.toList_append, String.toList_append, unmarked_append,
      unmarked_append, unmarked_keyword, ih]
    rfl

theorem unmarked_qualifiersAfter (qs : List Qualifier) :
    unmarked (qualifiersAfter qs).toList = true := by
  induction qs with
  | nil => rfl
  | cons q qs ih =>
    rw [qualifiersAfter, String.toList_append, String.toList_append, unmarked_append,
      unmarked_append, unmarked_keyword, ih]
    rfl

theorem unmarked_spelling (b : BaseType) : unmarked b.spelling.toList = true := by
  cases b with
  | void => rfl
  | integer kind => cases kind <;> rfl
  | floating kind => cases kind <;> rfl
  | composite kind tag stamp =>
    rw [BaseType.spelling, toList_keyword_text, unmarked_append, unmarked_append,
      unmarked_toDigits]
    cases kind <;> rfl
  | _ =>
    rw [BaseType.spelling, toList_append_text, unmarked_append, unmarked_toDigits]
    rfl

/-! ## The reader -/

/-- An open parenthesis, with the type in front of it and the parameters behind it, newest
first. -/
structure Frame where
  result : CanonicalType
  params : List CanonicalType

inductive State where
  /-- A type is about to begin, or a parameter list to end. -/
  | start (frames : List Frame)
  /-- A type that may go on has been read. -/
  | type (t : CanonicalType) (frames : List Frame)
  | bracket (element : CanonicalType) (length : Option Nat) (frames : List Frame)
  | ellipsis (frames : List Frame)

/-- A function whose parameters are given newest first. -/
def prototype (result : CanonicalType) (newestFirst : List CanonicalType) (variadic : Bool) :
    CanonicalType :=
  .function [] result (declared (newestFirst.reverse.map fun t => (Name.empty, t)) variadic) variadic

/-- A base type with its qualifiers, or an ellipsis. -/
def first (w : List Char) (frames : List Frame) : Option State :=
  if w = ['.', '.', '.'] then
    some (.ellipsis frames)
  else
    (baseType? (qualifiersInFront w).2).map fun b =>
      .type (.base (qualifiersInFront w).1 b) frames

def step : State → Token → Option State
  | .start fs, .word (' ' :: w) => first w fs
  | .start fs, .word w => first w fs
  | .start (⟨r, []⟩ :: fs), .mark ')' => some (.type (.unprototyped [] r false) fs)
  | .type t fs, .word w => some (.type (t.withAttrs (qualifiersBehind w)) fs)
  | .type t fs, .mark '*' => some (.type (.pointer [] t) fs)
  | .type t fs, .mark '[' => some (.bracket t none fs)
  | .type t fs, .mark '(' => some (.start (⟨t, []⟩ :: fs))
  | .type t (⟨r, ts⟩ :: fs), .mark ',' => some (.start (⟨r, t :: ts⟩ :: fs))
  | .type t (⟨r, ts⟩ :: fs), .mark ')' => some (.type (prototype r (t :: ts) false) fs)
  | .bracket t none fs, .word w => some (.bracket t (some (number w)) fs)
  | .bracket t n fs, .mark ']' => some (.type (.array [] t n) fs)
  | .ellipsis (⟨r, ts⟩ :: fs), .mark ')' => some (.type (prototype r ts true) fs)
  | _, _ => none

def readFrom (s : State) (cs : List Char) : Option State := (tokens cs).foldlM step s

/-- The type that a text spells. -/
def read (text : String) : Option CanonicalType :=
  match readFrom (.start []) text.toList with
  | some (.type t []) => some t
  | _ => none

/-- A mark is read in one step. -/
theorem readFrom_mark (s : State) {c : Char} (h : isMark c = true) (cs : List Char) :
    readFrom s (c :: cs) = (step s (.mark c)).bind (readFrom · cs) := by
  rw [readFrom, tokens_mark h]
  rfl

/-- A word is read in one step. -/
theorem readFrom_word (s : State) {w r : List Char} (hw : IsWord w) (hr : Ended r) :
    readFrom s (w ++ r) = (step s (.word w)).bind (readFrom · r) := by
  rw [readFrom, tokens_word hw hr]
  rfl

end DebugInfo.Reader
