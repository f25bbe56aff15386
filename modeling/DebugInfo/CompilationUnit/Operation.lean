import DebugInfo.CompilationUnit.Blocks
import DebugInfo.CompilationUnit.Globals
import DebugInfo.CompilationUnit.Output

/-!
# Operations on a unit

Everything that can be done to a unit, as data, and the state after a sequence of operations.
-/

namespace DebugInfo

namespace CompilationUnit

/-- An operation on a unit.  The callbacks of an enumeration share a state of type `σ`. -/
inductive Operation (σ : Type) where
  | restart (name : String)
  | freshId
  | internType (t : TypeExpr Attr)
  | updateType (id : EntryId) (update : TypeUpdate)
  | declare (d : Declaration)
  | declareLocal (d : LocalDecl)
  | enterFunction (function : Stamp) (block : Block)
  | enterChild (function : Stamp) (parent block : Block)
  | attach (function stamp : Stamp) (block : Block)
  | bindSymbol (stamp : Stamp) (symbol : Symbol)
  | bindLocal (stamp : Stamp) (symbol : Symbol)
  | bindCode (symbol : Symbol) (code : CodeRange)
  | bindParameter (function param : Stamp) (symbol : Symbol)
  | emit (e : Emission)
  | setSectionStart (name : Name) (start : Address)
  | setSectionStop (name : Name) (stop : Address)
  | enumerate (cb : Sections.Callbacks (StateM σ)) (start : σ)
  | addLabel (function : Symbol) (position : Nat) (addr : Address)
  | markPrinted (name : Name)

variable {σ : Type}

inductive Answer where
  | done
  | id (id : Option EntryId)
  | flag (b : Bool)
deriving DecidableEq, Repr

/-- Perform an operation on a unit. -/
def perform : Operation σ → UnitM Answer
  | .restart name => do
      modify (·.restart name)
      return .done
  | .freshId => return .id (some (← freshId))
  | .internType t => return .id (some (← internType t))
  | .updateType id update => return .flag (← updateType id update)
  | .declare d => return .id (some (← declare d))
  | .declareLocal d => return .id (← declareLocal d)
  | .enterFunction function block => return .id (← enterFunction function block)
  | .enterChild function parent block => return .id (← enterChild function parent block)
  | .attach function stamp block => return .flag (← attach function stamp block)
  | .bindSymbol stamp symbol => return .id (← bindSymbol stamp symbol)
  | .bindLocal stamp symbol => return .id (← bindLocal stamp symbol)
  | .bindCode symbol code => return .flag (← bindCode symbol code)
  | .bindParameter function param symbol => return .flag (← bindParameter function param symbol)
  | .emit e => do
      emit e
      return .done
  | .setSectionStart name start => do
      setSectionStart name start
      return .done
  | .setSectionStop name stop => do
      setSectionStop name stop
      return .done
  | .enumerate cb start => do
      modify fun u => (u.enumerate cb start).1
      return .done
  | .addLabel function position addr => do
      addLabel function position addr
      return .done
  | .markPrinted name => do
      markPrinted name
      return .done

/-- The answer to an operation, and the unit after it. -/
def apply (u : CompilationUnit) (op : Operation σ) : Except TableError Answer × CompilationUnit :=
  perform op u

/-- The unit after a sequence of operations, whether they fail or not. -/
def runFrom (u : CompilationUnit) (ops : List (Operation σ)) : CompilationUnit :=
  ops.foldl (fun u op => (u.apply op).2) u

/-- The unit after a sequence of operations on a new one. -/
def run (config : Config) (ops : List (Operation σ)) : CompilationUnit := (new config).runFrom ops

end CompilationUnit

end DebugInfo
