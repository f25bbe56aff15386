import DebugInfo.TypeExpr.Basic

/-!
# The spelling of a type

A canonical type is spelled from the inside out.  A base type has its qualifiers in front
(`const int`), every other layer has them behind (`int* const`, `int[4] volatile`), so the two
places never look alike.  Names are spelled by number; stamps and the names of parameters are not
spelled.
-/

namespace DebugInfo

def BaseType.spelling : BaseType → String
  | .void => "void"
  | .integer kind => kind.spelling
  | .floating kind => kind.spelling
  | .alias name _ => "typedef #" ++ name.text
  | .composite kind tag _ => kind.keyword ++ " #" ++ tag.text
  | .enumeration tag _ => "enum #" ++ tag.text

/-- The qualifiers of a base type, each followed by a space. -/
def qualifiersBefore : List Qualifier → String
  | [] => ""
  | q :: qs => q.keyword ++ " " ++ qualifiersBefore qs

/-- The qualifiers of any other layer, each after a space. -/
def qualifiersAfter : List Qualifier → String
  | [] => ""
  | q :: qs => " " ++ q.keyword ++ qualifiersAfter qs

def lengthSpelling : Option Nat → String
  | none => "[]"
  | some n => "[" ++ toString n ++ "]"

/-- The parameters of a prototype; one without parameters says `void`. -/
def paramsSpelling (params : List String) (variadic : Bool) : String :=
  match if variadic then params ++ ["..."] else params with
  | [] => "void"
  | ps => ", ".intercalate ps

namespace TypeExpr

mutual

def spelling : CanonicalType → String
  | .base qs b => qualifiersBefore qs ++ b.spelling
  | .pointer qs t => t.spelling ++ "*" ++ qualifiersAfter qs
  | .array qs t n => t.spelling ++ lengthSpelling n ++ qualifiersAfter qs
  | .function qs r ps v =>
      r.spelling ++ "(" ++ paramsSpelling (paramSpellings ps) v ++ ")" ++ qualifiersAfter qs
  | .unprototyped qs r _ => r.spelling ++ "()" ++ qualifiersAfter qs

def paramSpellings : List (Name × CanonicalType) → List String
  | [] => []
  | (_, t) :: ps => t.spelling :: paramSpellings ps

end

theorem paramSpellings_eq_map (ps : List (Name × CanonicalType)) :
    paramSpellings ps = ps.map fun p => p.2.spelling := by
  induction ps with
  | nil => rfl
  | cons p ps ih => simp [paramSpellings, ih]

end TypeExpr

end DebugInfo
