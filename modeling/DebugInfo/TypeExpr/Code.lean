import DebugInfo.TypeExpr.Basic

/-!
# Codes of type expressions

A type expression can be written as a list of numbers that loses nothing (`TypeExpr.code_inj`).
The code is written in front of whatever follows it, and it shows its own end, so codes can be put
one after the other.  Equality of type expressions is decided on their codes.
-/

namespace DebugInfo

/-- Attributes that are told apart by a number. -/
class Coded (α : Type) where
  code : α → Nat
  code_inj : ∀ {a b : α}, code a = code b → a = b

def Qualifier.code : Qualifier → Nat
  | .const => 0
  | .volatile => 1

theorem Qualifier.code_inj {a b : Qualifier} (h : a.code = b.code) : a = b := by
  cases a <;> cases b <;> simp_all [Qualifier.code]

instance : Coded Qualifier := ⟨Qualifier.code, Qualifier.code_inj⟩

def Attr.code : Attr → Nat
  | .qualifier q => q.code
  | .restrict => 2
  | .aligned n => 2 * n + 3
  | .custom name => 2 * name.raw + 4

theorem Attr.code_inj {a b : Attr} (h : a.code = b.code) : a = b := by
  cases a with
  | qualifier q => cases b with
    | qualifier p => exact congrArg _ (Qualifier.code_inj h)
    | _ => cases q <;> simp only [Attr.code, Qualifier.code] at h <;> omega
  | restrict => cases b with
    | qualifier p => cases p <;> simp [Attr.code, Qualifier.code] at h
    | restrict => rfl
    | _ => simp only [Attr.code] at h; omega
  | aligned n => cases b with
    | qualifier p => cases p <;> simp only [Attr.code, Qualifier.code] at h <;> omega
    | aligned m => exact congrArg _ (by simp only [Attr.code] at h; omega)
    | _ => simp only [Attr.code] at h; omega
  | custom n => cases b with
    | qualifier p => cases p <;> simp only [Attr.code, Qualifier.code] at h <;> omega
    | custom m => exact congrArg _ (Ident.ext (by simp only [Attr.code] at h; omega))
    | _ => simp only [Attr.code] at h; omega

instance : Coded Attr := ⟨Attr.code, Attr.code_inj⟩

/-! ## The code of a base type -/

def IntegerKind.code : IntegerKind → Nat
  | .bool => 0
  | .char => 1
  | .signedChar => 2
  | .unsignedChar => 3
  | .short => 4
  | .unsignedShort => 5
  | .int => 6
  | .unsignedInt => 7
  | .long => 8
  | .unsignedLong => 9
  | .longLong => 10
  | .unsignedLongLong => 11

def FloatingKind.code : FloatingKind → Nat
  | .float => 0
  | .double => 1
  | .longDouble => 2

def CompositeKind.code : CompositeKind → Nat
  | .struct => 0
  | .union => 1

theorem IntegerKind.code_inj {a b : IntegerKind} (h : a.code = b.code) : a = b := by
  cases a <;> cases b <;> simp_all [IntegerKind.code]

theorem FloatingKind.code_inj {a b : FloatingKind} (h : a.code = b.code) : a = b := by
  cases a <;> cases b <;> simp_all [FloatingKind.code]

theorem CompositeKind.code_inj {a b : CompositeKind} (h : a.code = b.code) : a = b := by
  cases a <;> cases b <;> simp_all [CompositeKind.code]

def BaseType.code : BaseType → List Nat → List Nat
  | .void, rest => 0 :: rest
  | .integer k, rest => 1 :: k.code :: rest
  | .floating k, rest => 2 :: k.code :: rest
  | .alias n s, rest => 3 :: n.raw :: s.raw :: rest
  | .composite k n s, rest => 4 :: k.code :: n.raw :: s.raw :: rest
  | .enumeration n s, rest => 5 :: n.raw :: s.raw :: rest

theorem BaseType.code_inj {a b : BaseType} {r s : List Nat} (h : a.code r = b.code s) :
    a = b ∧ r = s := by
  cases a <;> cases b <;> simp [BaseType.code, ← Ident.ext_iff] at h ⊢
  case void.void => exact h
  case integer.integer => exact ⟨IntegerKind.code_inj h.1, h.2⟩
  case floating.floating => exact ⟨FloatingKind.code_inj h.1, h.2⟩
  case alias.alias => exact ⟨⟨h.1, h.2.1⟩, h.2.2⟩
  case composite.composite => exact ⟨⟨CompositeKind.code_inj h.1, h.2.1, h.2.2.1⟩, h.2.2.2⟩
  case enumeration.enumeration => exact ⟨⟨h.1, h.2.1⟩, h.2.2⟩

/-! ## The code of an expression -/

/-- A list of attributes ends with zero. -/
def attrCodes {α : Type} [Coded α] : List α → List Nat → List Nat
  | [], rest => 0 :: rest
  | a :: as, rest => (Coded.code a + 1) :: attrCodes as rest

theorem attrCodes_inj {α : Type} [Coded α] {as bs : List α} {r s : List Nat}
    (h : attrCodes as r = attrCodes bs s) : as = bs ∧ r = s := by
  induction as generalizing bs with
  | nil => cases bs <;> simp [attrCodes] at h ⊢; exact h
  | cons a as ih =>
    cases bs with
    | nil => simp [attrCodes] at h
    | cons b bs =>
      simp only [attrCodes, List.cons.injEq, Nat.add_right_cancel_iff] at h
      have ⟨hs, hr⟩ := ih h.2
      exact ⟨by rw [Coded.code_inj h.1, hs], hr⟩

def lengthCode : Option Nat → List Nat → List Nat
  | none, rest => 0 :: rest
  | some n, rest => (n + 1) :: rest

theorem lengthCode_inj {m n : Option Nat} {r s : List Nat}
    (h : lengthCode m r = lengthCode n s) : m = n ∧ r = s := by
  cases m <;> cases n <;> simp [lengthCode] at h ⊢ <;> exact h

namespace TypeExpr

variable {α : Type} [Coded α]

mutual

def codeOnto : TypeExpr α → List Nat → List Nat
  | .base as b, rest => 0 :: attrCodes as (b.code rest)
  | .pointer as t, rest => 1 :: attrCodes as (t.codeOnto rest)
  | .array as t n, rest => 2 :: attrCodes as (lengthCode n (t.codeOnto rest))
  | .function as r ps v, rest =>
      3 :: attrCodes as (v.toNat :: r.codeOnto (paramCodesOnto ps rest))
  | .unprototyped as r v, rest => 4 :: attrCodes as (v.toNat :: r.codeOnto rest)

def paramCodesOnto : List (Name × TypeExpr α) → List Nat → List Nat
  | [], rest => 0 :: rest
  | (n, t) :: ps, rest => (n.raw + 1) :: t.codeOnto (paramCodesOnto ps rest)

end

private theorem paramCodesOnto_inj {ps qs : List (Name × TypeExpr α)} {r s : List Nat}
    (ih : ∀ p ∈ ps, ∀ (u : TypeExpr α) (r s : List Nat),
      p.2.codeOnto r = u.codeOnto s → p.2 = u ∧ r = s)
    (h : paramCodesOnto ps r = paramCodesOnto qs s) : ps = qs ∧ r = s := by
  induction ps generalizing qs with
  | nil => cases qs <;> simp [paramCodesOnto] at h ⊢; exact h
  | cons p ps ihs =>
    cases qs with
    | nil => simp [paramCodesOnto] at h
    | cons q qs =>
      simp only [paramCodesOnto, List.cons.injEq, Nat.add_right_cancel_iff] at h
      have ⟨ht, hrest⟩ := ih p List.mem_cons_self q.2 _ _ h.2
      have ⟨hps, hr⟩ := ihs (fun p hp => ih p (List.mem_cons_of_mem _ hp)) hrest
      exact ⟨by rw [hps, Prod.ext (Ident.ext h.1) ht], hr⟩

private theorem toNat_inj {b c : Bool} (h : b.toNat = c.toNat) : b = c := by
  cases b <;> cases c <;> simp_all

theorem codeOnto_inj {t u : TypeExpr α} {r s : List Nat} (h : t.codeOnto r = u.codeOnto s) :
    t = u ∧ r = s := by
  induction t generalizing u r s with
  | base as b =>
    cases u <;> simp [codeOnto] at h
    have ⟨ha, h⟩ := attrCodes_inj h
    have ⟨hb, h⟩ := BaseType.code_inj h
    exact ⟨by rw [ha, hb], h⟩
  | pointer as t ih =>
    cases u <;> simp [codeOnto] at h
    have ⟨ha, h⟩ := attrCodes_inj h
    have ⟨ht, h⟩ := ih h
    exact ⟨by rw [ha, ht], h⟩
  | array as t n ih =>
    cases u <;> simp [codeOnto] at h
    have ⟨ha, h⟩ := attrCodes_inj h
    have ⟨hn, h⟩ := lengthCode_inj h
    have ⟨ht, h⟩ := ih h
    exact ⟨by rw [ha, hn, ht], h⟩
  | function as t ps v iht ihps =>
    cases u <;> simp [codeOnto] at h
    have ⟨ha, h⟩ := attrCodes_inj h
    rw [List.cons.injEq] at h
    have ⟨ht, hrest⟩ := iht h.2
    have ⟨hps, hr⟩ := paramCodesOnto_inj (fun p hp u r s => ihps p hp) hrest
    exact ⟨by rw [ha, toNat_inj h.1, ht, hps], hr⟩
  | unprototyped as t v ih =>
    cases u <;> simp [codeOnto] at h
    have ⟨ha, h⟩ := attrCodes_inj h
    rw [List.cons.injEq] at h
    have ⟨ht, hr⟩ := ih h.2
    exact ⟨by rw [ha, toNat_inj h.1, ht], hr⟩

def code (t : TypeExpr α) : List Nat := t.codeOnto []

theorem code_inj {t u : TypeExpr α} (h : t.code = u.code) : t = u := (codeOnto_inj h).1

@[simp] theorem code_eq_iff {t u : TypeExpr α} : t.code = u.code ↔ t = u :=
  ⟨code_inj, congrArg code⟩

instance : DecidableEq (TypeExpr α) := fun _ _ => decidable_of_iff _ code_eq_iff

end TypeExpr

end DebugInfo
