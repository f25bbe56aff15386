import DebugInfo.Order

/-!
# Identifiers

The passes that fill the tables of a compilation unit number the same entity each in its own way:
the frontend by stamps, the backend by symbols, the tables by entry ids.  The space a number
belongs to is part of its type, so numbers of different spaces cannot be mixed up.
-/

namespace DebugInfo

inductive Space where
  /-- Interned strings: names of entities, members, tags, files and sections. -/
  | name
  /-- Declared entities, as the frontend numbers them. -/
  | stamp
  /-- Globals, functions and local variables, as the backend numbers them. -/
  | symbol
  /-- Lexical blocks within one function, as the frontend numbers them. -/
  | block
  /-- Entries of the type, definition and local tables, which share one supply. -/
  | entry
deriving DecidableEq, Repr

namespace Space

def tag : Space → String
  | .name => "Name"
  | .stamp => "Stamp"
  | .symbol => "SymbolId"
  | .block => "ScopeId"
  | .entry => "DebugId"

end Space

@[ext] structure Ident (s : Space) where
  raw : Nat
deriving DecidableEq, Repr

abbrev Name := Ident .name
abbrev Stamp := Ident .stamp
abbrev Symbol := Ident .symbol
abbrev Block := Ident .block
abbrev EntryId := Ident .entry

namespace Ident

variable {s : Space}

instance : Ord (Ident s) := ⟨compareOn Ident.raw⟩

instance : Std.TransOrd (Ident s) :=
  inferInstanceAs (Std.TransCmp (compareOn (Ident.raw (s := s))))

instance : Std.LawfulEqOrd (Ident s) :=
  lawfulEqCmp_compareOn fun h => Ident.ext h

/-- The number in decimal; entry ids carry a leading `#`. -/
def text (i : Ident s) : String :=
  match s with
  | .entry => "#" ++ toString i.raw
  | _ => toString i.raw

/-- The number together with the space it belongs to. -/
def tagged (i : Ident s) : String := s.tag ++ "(" ++ toString i.raw ++ ")"

end Ident

namespace Name

/-- The empty string has the first name. -/
def empty : Name := ⟨0⟩

def isEmpty (n : Name) : Bool := n.raw == 0

@[simp] theorem isEmpty_iff (n : Name) : n.isEmpty = true ↔ n = empty := by
  simp [isEmpty, empty, Ident.ext_iff]

end Name

abbrev EntryMap (α : Type) := Std.ExtTreeMap EntryId α

/-! ## The supply of entry ids -/

/-- Entry ids are handed out in order from zero and come back only with a reset. -/
structure IdSupply where
  allocated : Nat := 0
deriving DecidableEq, Repr

namespace IdSupply

def fresh (ids : IdSupply) : EntryId × IdSupply :=
  (⟨ids.allocated⟩, ⟨ids.allocated + 1⟩)

def reset (_ : IdSupply) : IdSupply := {}

@[simp] theorem fresh_fst (ids : IdSupply) : ids.fresh.1.raw = ids.allocated := rfl
@[simp] theorem fresh_snd (ids : IdSupply) : ids.fresh.2.allocated = ids.allocated + 1 := rfl
@[simp] theorem allocated_reset (ids : IdSupply) : ids.reset.allocated = 0 := rfl

end IdSupply

end DebugInfo
