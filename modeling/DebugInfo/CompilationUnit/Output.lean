import DebugInfo.CompilationUnit.Basic

/-!
# Output of a unit

Sections, file numbers and labels, as the code generator lays out what it emits.
-/

namespace DebugInfo

namespace CompilationUnit

def setSectionStart (name : Name) (start : Address) : StateM CompilationUnit Unit :=
  modify fun u => { u with sections := u.sections.setStart name start }

def setSectionStop (name : Name) (stop : Address) : StateM CompilationUnit Unit :=
  modify fun u => { u with sections := u.sections.setStop name stop }

/-- Finish the sections and number the files. -/
def enumerate {m : Type → Type} [Monad m] (cb : Sections.Callbacks m) (u : CompilationUnit) :
    m CompilationUnit := do
  let sections ← u.sections.enumerate cb
  return { u with sections }

def addLabel (function : Symbol) (position : Nat) (addr : Address) :
    StateM CompilationUnit Unit :=
  modify fun u => { u with labels := u.labels.add function position addr }

end CompilationUnit

end DebugInfo
