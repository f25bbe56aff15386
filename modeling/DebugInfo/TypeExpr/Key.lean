import DebugInfo.Config
import DebugInfo.TypeExpr.Code
import DebugInfo.TypeExpr.Spelling

/-!
# Type keys

Two canonical types are the same type of a unit if they have the same key.  Depending on the mode,
the key is the spelling, which leaves out stamps and parameter names, or the code, which leaves
out nothing.
-/

namespace DebugInfo

inductive TypeKey where
  | spelled (text : String)
  | structural (code : List Nat)
deriving DecidableEq, Repr

namespace TypeKey

def of : KeyMode → CanonicalType → TypeKey
  | .spelling, t => .spelled t.spelling
  | .structural, t => .structural t.code

/-- The parts of a key, by which keys are ordered. -/
def parts : TypeKey → String × List Nat × Bool
  | .spelled text => (text, [], false)
  | .structural code => ("", code, true)

theorem parts_inj {a b : TypeKey} (h : a.parts = b.parts) : a = b := by
  cases a <;> cases b <;> simp_all [parts]

instance : Ord TypeKey := ⟨compareOn parts⟩

instance : Std.TransOrd TypeKey := inferInstanceAs (Std.TransCmp (compareOn parts))

instance : Std.LawfulEqOrd TypeKey := lawfulEqCmp_compareOn parts_inj

theorem of_structural_inj {t u : CanonicalType} :
    of .structural t = of .structural u ↔ t = u := by
  simp [of]

theorem of_spelling_inj {t u : CanonicalType} :
    of .spelling t = of .spelling u ↔ t.spelling = u.spelling := by
  simp [of]

end TypeKey

end DebugInfo
