/-!
# Configuration

How much a unit records, and what makes two of its types the same.
-/

namespace DebugInfo

inductive DebugLevel where
  /-- Definitions, types, sections and files, but nothing about local variables and scopes. -/
  | lineTables
  | full
deriving DecidableEq, Repr

namespace DebugLevel

instance : Inhabited DebugLevel := ⟨.full⟩

def tracksLocals : DebugLevel → Bool
  | .lineTables => false
  | .full => true

def text : DebugLevel → String
  | .lineTables => "line-tables"
  | .full => "full"

end DebugLevel

inductive KeyMode where
  /-- Types are the same if they are spelled alike. -/
  | spelling
  /-- Types are the same if they agree in everything but their discarded attributes. -/
  | structural
deriving DecidableEq, Repr

namespace KeyMode

instance : Inhabited KeyMode := ⟨.spelling⟩

def text : KeyMode → String
  | .spelling => "spelling"
  | .structural => "structural"

end KeyMode

structure Config where
  level : DebugLevel := default
  keys : KeyMode := default
deriving DecidableEq, Repr

namespace Config

def ofLevel (level : DebugLevel) : Config := { level }

def lineTables : Config := ofLevel .lineTables

def tracksLocals (c : Config) : Bool := c.level.tracksLocals

end Config

end DebugInfo
