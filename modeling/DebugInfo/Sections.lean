import Std.Data.ExtTreeSet
import DebugInfo.FirstMatch
import DebugInfo.Location

/-!
# Sections and files

The output sections of a unit, the source files it refers to, and the number of each file in the
line table of each section.  At the end of the unit the sections are finished one after the other;
what their ends are and which numbers the files get is asked of the caller.

A section is searched for by its name.  A table that keeps the positions of the names finds it at
once, and does the same.
-/

namespace DebugInfo

/-- The number of a file in the line table of a section. -/
structure FileNumber where
  raw : UInt32
deriving DecidableEq, Repr

namespace FileNumber

instance : Ord FileNumber := ⟨compareOn FileNumber.raw⟩

def ofNat (n : Nat) : FileNumber := ⟨.ofNat n⟩

/-- The number after this one; the last number is followed by zero. -/
def next (n : FileNumber) : FileNumber := ⟨n.raw + 1⟩

def tagged (n : FileNumber) : String := "FileNumber(" ++ toString n.raw.toNat ++ ")"

end FileNumber

structure Section where
  name : Name
  start : Address
  stop : Option Address := none
deriving DecidableEq, Repr

structure Sections where
  /-- In the order in which they were registered. -/
  sections : List Section
  files : Std.ExtTreeSet Name
  numbers : Std.ExtTreeMap (Name × Name) FileNumber

namespace Sections

def empty : Sections where
  sections := []
  files := ∅
  numbers := ∅

instance : EmptyCollection Sections := ⟨empty⟩

def clear (s : Sections) : Sections := { s with sections := [], files := ∅, numbers := ∅ }

@[simp] theorem clear_eq_empty (s : Sections) : s.clear = ∅ := rfl

def get? (s : Sections) (name : Name) : Option Section := s.sections.find? (·.name == name)

def contains (s : Sections) (name : Name) : Bool := s.sections.any (·.name == name)

/-- The files in ascending order. -/
def fileList (s : Sections) : List Name := s.files.toList

def number? (s : Sections) (name file : Name) : Option FileNumber := s.numbers[(name, file)]?

/-- Register a section, or move the start of one that is registered. -/
def setStart (s : Sections) (name : Name) (start : Address) : Sections :=
  { s with
    sections :=
      if s.contains name then
        updateFirst (·.name == name) ({ · with start }) s.sections
      else
        s.sections ++ [{ name, start }] }

/-- Set the end of a section if it is registered. -/
def setStop (s : Sections) (name : Name) (stop : Address) : Sections :=
  { s with sections := updateFirst (·.name == name) ({ · with stop := some stop }) s.sections }

def addFile (s : Sections) (file : Name) : Sections := { s with files := s.files.insert file }

/-- Set the number of a file in a section. -/
def setNumber (s : Sections) (name file : Name) (n : FileNumber) : Sections :=
  { s with numbers := s.numbers.insert (name, file) n }

/-! ## Enumeration -/

/-- What the caller is asked while the sections are finished. -/
structure Callbacks (m : Type → Type) where
  /-- The end of a section. -/
  stop : Name → m Address
  /-- The number of a file in a section. -/
  number : Name → Name → m FileNumber
  /-- Called when all files of a section are numbered. -/
  close : Name → m Unit

section

variable {m : Type → Type} [Monad m]

/-- Number the files of one section. -/
def numberFiles (cb : Callbacks m) (name : Name) :
    List Name → Std.ExtTreeMap (Name × Name) FileNumber →
      m (Std.ExtTreeMap (Name × Name) FileNumber)
  | [], numbers => pure numbers
  | file :: files, numbers => do
      let n ← cb.number name file
      numberFiles cb name files (numbers.insert (name, file) n)

/-- Finish sections one after the other. -/
def finish (cb : Callbacks m) (files : List Name) :
    List Section → Std.ExtTreeMap (Name × Name) FileNumber →
      m (List Section × Std.ExtTreeMap (Name × Name) FileNumber)
  | [], numbers => pure ([], numbers)
  | s :: rest, numbers => do
      let stop ← cb.stop s.name
      let numbers ← numberFiles cb s.name files numbers
      cb.close s.name
      let (rest, numbers) ← finish cb files rest numbers
      return ({ s with stop := some stop } :: rest, numbers)

/-- Fix the end of every section and the number of every file in it. -/
def enumerate (cb : Callbacks m) (s : Sections) : m Sections := do
  let (sections, numbers) ← finish cb s.fileList s.sections s.numbers
  return { s with sections, numbers }

end

/-! ## Positions -/

/-- A table that keeps the position of each section, so that none has to be searched for. -/
structure Indexed where
  table : Sections
  positions : Std.ExtTreeMap Name Nat

namespace Indexed

def empty : Indexed where
  table := ∅
  positions := ∅

instance : EmptyCollection Indexed := ⟨empty⟩

def clear (x : Indexed) : Indexed := { x with table := x.table.clear, positions := ∅ }

@[simp] theorem clear_eq_empty (x : Indexed) : x.clear = ∅ := rfl

def get? (x : Indexed) (name : Name) : Option Section :=
  x.positions[name]?.bind (x.table.sections[·]?)

def contains (x : Indexed) (name : Name) : Bool := x.positions.contains name

/-- Change the section at a position. -/
def modify (x : Indexed) (i : Nat) (f : Section → Section) : Indexed :=
  { x with table := { x.table with sections := x.table.sections.modify i f } }

def setStart (x : Indexed) (name : Name) (start : Address) : Indexed :=
  match x.positions[name]? with
  | some i => x.modify i ({ · with start })
  | none =>
      { table := { x.table with sections := x.table.sections ++ [{ name, start }] }
        positions := x.positions.insert name x.table.sections.length }

def setStop (x : Indexed) (name : Name) (stop : Address) : Indexed :=
  match x.positions[name]? with
  | some i => x.modify i ({ · with stop := some stop })
  | none => x

def addFile (x : Indexed) (file : Name) : Indexed := { x with table := x.table.addFile file }

def enumerate {m : Type → Type} [Monad m] (cb : Callbacks m) (x : Indexed) : m Indexed := do
  let table ← x.table.enumerate cb
  return { x with table }

end Indexed

/-! ## Counting -/

/-- A question that was asked, with its answer. -/
inductive Call where
  | stop (name : Name) (addr : Address)
  | number (name file : Name) (n : FileNumber)
  | close (name : Name)
deriving DecidableEq, Repr

structure Counter where
  next : FileNumber
  /-- The calls so far, the last one first. -/
  calls : List Call := []

/-- Number the files in the order of the calls, and take the ends of the sections from `stop`. -/
def counting (stop : Name → Address) : Callbacks (StateM Counter) where
  stop name := fun c => (stop name, { c with calls := .stop name (stop name) :: c.calls })
  number name file := fun c =>
    (c.next, { next := c.next.next, calls := .number name file c.next :: c.calls })
  close name := fun c => ((), { c with calls := .close name :: c.calls })

end Sections

end DebugInfo
