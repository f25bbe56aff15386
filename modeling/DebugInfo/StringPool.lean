import DebugInfo.Ident

/-!
# The string pool

Equal strings get one name, so that names can be compared without looking at the strings.  The
names of a pool are its positions; the empty string is there from the start.
-/

namespace DebugInfo

inductive PoolError where
  | overflow (count : Nat)
deriving DecidableEq, Repr

def PoolError.message : PoolError → String
  | .overflow count =>
      "interner exceeded capacity: " ++ toString count ++ " strings, max is 4294967295"

structure StringPool where
  strings : Array String
  names : Std.ExtTreeMap String Name

namespace StringPool

/-- The number of names that a 32-bit number can hold. -/
def capacity : Nat := 4294967296

def empty : StringPool where
  strings := #[""]
  names := (∅ : Std.ExtTreeMap String Name).insert "" Name.empty

def size (p : StringPool) : Nat := p.strings.size

/-- Whether nothing has been interned beyond the empty string. -/
def isEmpty (p : StringPool) : Bool := p.size ≤ 1

def name? (p : StringPool) (s : String) : Option Name := p.names[s]?

/-- The string of a name; a name of another pool has none and reads as `<unknown>`. -/
def string (p : StringPool) (n : Name) : String := (p.strings[n.raw]?).getD "<unknown>"

/-- The name of `s`, which is added if the pool has not seen it; there has to be room for it. -/
def intern (p : StringPool) (s : String) : Name × StringPool :=
  match p.name? s with
  | some n => (n, p)
  | none =>
      let n : Name := ⟨p.size⟩
      (n, { strings := p.strings.push s, names := p.names.insert s n })

/-- Like `intern`, but a string that finds no room is an error. -/
def tryIntern (p : StringPool) (s : String) : Except PoolError (Name × StringPool) :=
  match p.name? s with
  | some n => .ok (n, p)
  | none => if p.size < capacity then .ok (p.intern s) else .error (.overflow p.size)

end StringPool

end DebugInfo
