import DebugInfo.Proofs.Attributes
import DebugInfo.Proofs.Interning.Shapes

/-!
# What is done first

A declaration notes the file it stands in and interns the types that are written in it, and only
then is it recorded.  The first part cannot fail and says nothing of what is declared: it is the
same for two declarations that mention the same file and the same types.
-/

namespace DebugInfo

/-- The types that are interned for a result: a `void` without any attribute is not. -/
def TypeExpr.asResult (t : TypeExpr Attr) : List (TypeExpr Attr) :=
  if t.isPlainVoid then [] else [t]

/-- The types that a declaration interns, in order. -/
def Declaration.types : Declaration → List (TypeExpr Attr)
  | .variable d => [d.type]
  | .function d => d.result.asResult ++ d.params.map (·.type)
  | .prototype d => (CompilationUnit.prototypeResult d.type).1.asResult
  | .composite d =>
      .base [] (.composite d.kind d.tag d.stamp) :: (d.members.getD []).map (·.type)
  | .enum d => [.base [] (.enumeration d.tag d.stamp)]
  | .typedef d => [.base [] (.alias d.name d.stamp), d.type]

/-- The file of a location. -/
def TypeUpdate.file? : TypeUpdate → Option Name
  | .loc l => some l.file
  | _ => none

namespace CompilationUnit

variable {σ α : Type}

/-- The file that an operation notes, if it does note one. -/
def Operation.file? : Operation σ → Option Name
  | .updateType _ update => update.file?
  | .declare d => some d.loc.file
  | .declareLocal d => some d.loc.file
  | _ => none

/-- The types that an operation interns, if the unit keeps what it is about. -/
def Operation.types : Operation σ → List (TypeExpr Attr)
  | .internType t => [t]
  | .declare d => d.types
  | .declareLocal d => [d.type]
  | _ => []

/-- Note a file, if there is one, and intern types. -/
def mention (u : CompilationUnit) (file? : Option Name) (ts : List (TypeExpr Attr)) :
    CompilationUnit :=
  let s := TypeTable.internAll ts (u.ids, u.types)
  { u with
    ids := s.1
    types := s.2
    sections := file?.elim u.sections u.sections.addFile }

variable (u : CompilationUnit)

/-- Types are mentioned one list after the other. -/
theorem mention_append (file? : Option Name) (ts ts' : List (TypeExpr Attr)) :
    u.mention file? (ts ++ ts') = (u.mention file? ts).mention none ts' := by
  simp only [mention, TypeTable.internAll, List.foldl_append]
  rfl

/-! ## Interning -/

theorem addFile_snd (file : Name) : (addFile file u).2 = u.mention (some file) [] := rfl

/-- The result of a function is mentioned, and for `void` nothing is. -/
theorem resultType_snd (t : TypeExpr Attr) : (resultType t u).2 = u.mention none t.asResult := by
  unfold resultType TypeExpr.asResult
  split <;> rfl

/-- The types of all parameters are mentioned. -/
theorem internParams_snd (ds : List ParameterDecl) :
    (internParams ds u).2 = u.mention none (ds.map (·.type)) := by
  induction ds generalizing u with
  | nil => rfl
  | cons d ds ih => exact ih (internType d.type u).2

/-! ## Recording -/

def variableOf (d : VariableDecl) (type : EntryId) : Variable where
  name := d.name
  loc := d.loc
  isTentative := d.storage == .external && !d.hasInitializer
  isExternal := d.storage.isExternal
  type

/-- A variable is recorded with the id of its type. -/
theorem declareVariable_apply (d : VariableDecl) :
    let type := (internType d.type (addFile d.loc.file u).2).1
    declareVariable d u =
      onDefinitions (fun g ids => g.declareVariable ids d.stamp (variableOf d type)
        (d.hasInitializer || !(d.storage == .external))) (u.mention (some d.loc.file) [d.type]) :=
  rfl

/-- A prototype is recorded with the id of its result. -/
theorem declarePrototype_mention (d : PrototypeDecl) :
    let result := (resultType (prototypeResult d.type).1 (addFile d.loc.file u).2).1
    declarePrototype d u =
      onDefinitions (fun g ids => g.declarePrototype ids (prototypeSignatureOf d result))
        (u.mention (some d.loc.file) (prototypeResult d.type).1.asResult) := by
  rw [declarePrototype_apply, resultType_snd]
  rfl

/-- A function is recorded with the ids of its result and its parameters. -/
theorem defineFunction_mention (d : FunctionDecl) :
    let result := resultType d.result (addFile d.loc.file u).2
    let params := (internParams d.params result.2).1
    defineFunction d u =
      onDefinitions (fun g ids => g.defineFunction ids (signatureOf d result.1) params)
        (u.mention (some d.loc.file) (d.result.asResult ++ d.params.map (·.type))) := by
  rw [defineFunction_apply, internParams_snd]
  simp only [resultType_snd, addFile_snd, mention_append]
  rfl

/-! ## Updating -/

/-- The file of a location is noted first. -/
theorem updateType_apply (id : EntryId) (update : TypeUpdate) :
    updateType id update u =
      match u.types.update id update with
      | .ok (changed, types) => (.ok changed, { u.mention update.file? [] with types })
      | .error e => (.error e, u.mention update.file? []) := by
  cases update <;> rfl

end CompilationUnit

end DebugInfo
