import DebugInfo.Proofs.Links.Locals

/-!
# Runs on the table of locals

A run starts with an empty table and any supply of ids.  It declares variables and enters blocks in
any order, also with operations that fail, and ids may go to other tables in between.  When the
table is cleared the ids may start anew, but not otherwise.
-/

namespace DebugInfo.Locals

inductive Operation where
  | declare (stamp : Stamp) (v : LocalVariable)
  | enter (function : Stamp) (block : Block)
  | enterChild (function : Stamp) (parent block : Block)
  | attach (function stamp : Stamp) (block : Block)
  | linkSymbol (function : Stamp) (symbol : Symbol)
  | bindSymbol (stamp : Stamp) (symbol : Symbol)
  /-- An id is handed out to an entry of another table. -/
  | skip
  /-- Every local is forgotten, and ids go on from any supply. -/
  | clear (ids : IdSupply)

/-- The supply of ids together with the table. -/
abbrev State := IdSupply × Locals

/-- The state after an operation, which is the same one if it fails. -/
def step (s : State) : Operation → State
  | .declare stamp v => (s.2.declare s.1 stamp v).2
  | .enter function block => (s.2.enter s.1 function block).2
  | .enterChild function parent block =>
      match s.2.enterChild s.1 function parent block with
      | .ok (_, s') => s'
      | .error _ => s
  | .attach function stamp block =>
      match s.2.attach function stamp block with
      | .ok (_, l) => (s.1, l)
      | .error _ => s
  | .linkSymbol function symbol => (s.1, (s.2.linkSymbol function symbol).2)
  | .bindSymbol stamp symbol =>
      match s.2.bindSymbol stamp symbol with
      | some (_, l) => (s.1, l)
      | none => s
  | .skip => (s.1.fresh.2, s.2)
  | .clear ids => (ids, s.2.clear)

def runFrom (s : State) (ops : List Operation) : State := ops.foldl step s

def run (ids : IdSupply) (ops : List Operation) : State := runFrom (ids, ∅) ops

/-- The ids in the table come from the supply and lead to what they should; of types nothing is
asked. -/
abbrev Sound (s : State) : Prop := Linked (fun _ => True) s.1 s.2

theorem step_sound {s : State} (h : Sound s) (op : Operation) : Sound (step s op) := by
  cases op with
  | declare stamp v => exact (h.declare trivial rfl).linked
  | enter function block => exact (h.enter rfl).1.linked
  | enterChild function parent block =>
    simp only [step]
    split
    · next ho => exact (h.enterChild ho).linked
    · exact h
  | attach function stamp block =>
    simp only [step]
    split
    · next ho => exact (h.attach ho).linked
    · exact h
  | linkSymbol function symbol => exact (h.linkSymbol function symbol).linked
  | bindSymbol stamp symbol =>
    simp only [step]
    split
    · next ho => exact (h.bindSymbol ho).linked
    · exact h
  | skip => exact h.mono (fun _ _ => trivial) (Nat.le_succ _)
  | clear ids => exact linked_empty _ ids

end DebugInfo.Locals
