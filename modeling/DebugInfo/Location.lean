import DebugInfo.Ident

/-!
# Locations

Where something is: at a code address, at a place in a source file, or, for the value of a
variable, in a register, a slot or a static object.
-/

namespace DebugInfo

/-! ## Code -/

structure Address where
  raw : Nat
deriving DecidableEq, Repr

namespace Address

instance : Ord Address := ⟨compareOn Address.raw⟩

instance : LE Address := ⟨fun a b => a.raw ≤ b.raw⟩

instance (a b : Address) : Decidable (a ≤ b) := inferInstanceAs (Decidable (a.raw ≤ b.raw))

/-- The address in hexadecimal, lower case, without leading zeros. -/
def text (a : Address) : String := "0x" ++ String.ofList (Nat.toDigits 16 a.raw)

def tagged (a : Address) : String := "Address(" ++ a.text ++ ")"

end Address

/-! ## Source -/

structure SourceLoc where
  file : Name
  line : Nat
  column : Nat
deriving DecidableEq, Repr

/-! ## Values -/

/-- Where the value of a variable lives. -/
inductive Place where
  | register (number : Nat)
  /-- A slot at an offset from the frame base. -/
  | frame (offset : Int)
  /-- A slot at an offset from the stack pointer. -/
  | stack (offset : Int)
  | static (object : Symbol)
deriving DecidableEq, Repr

/-- An offset always shows its sign. -/
def signed (offset : Int) : String :=
  if offset < 0 then toString offset else "+" ++ toString offset

def Place.text : Place → String
  | .register number => "reg" ++ toString number
  | .frame offset => "fp" ++ signed offset
  | .stack offset => "sp" ++ signed offset
  | .static object => "sym" ++ object.text

end DebugInfo
