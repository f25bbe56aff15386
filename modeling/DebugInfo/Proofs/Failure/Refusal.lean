import DebugInfo.Proofs.Failure.InPlace
import DebugInfo.Proofs.Failure.Misuse

/-!
# What a failure leaves behind

A refused operation has noted the file it stands in and interned the types that are written in it,
and no more.  That is harmless: what was in the table of types is there as it was, the ids that were
taken are those of the new types, and no definition, no local and nothing of the output is touched.
-/

namespace DebugInfo

namespace CompilationUnit

/-- Nothing but a mention of a file and of types lies between the two units. -/
structure Unharmed (u : CompilationUnit) (file? : Option Name) (u' : CompilationUnit) : Prop where
  config : u'.config = u.config
  name : u'.name = u.name
  definitions : u'.definitions = u.definitions
  locals : u'.locals = u.locals
  lifetimes : u'.lifetimes = u.lifetimes
  labels : u'.labels = u.labels
  sections : u'.sections.sections = u.sections.sections
  numbers : u'.sections.numbers = u.sections.numbers
  mem_files_iff : ∀ file, file ∈ u'.sections.files ↔ file ∈ u.sections.files ∨ file? = some file
  types : TypeTable.Enlarges (u.ids, u.types) (u'.ids, u'.types)

/-- To mention types and a file harms nothing that was there. -/
theorem unharmed_mention {u : CompilationUnit} (h : TypeTable.Sound (u.ids, u.types))
    (file? : Option Name) (ts : List (TypeExpr Attr)) : Unharmed u file? (u.mention file? ts) := by
  have htypes := TypeTable.Sound.enlarges h (TypeTable.internAll_interns ts _)
  cases file? with
  | none => exact ⟨rfl, rfl, rfl, rfl, rfl, rfl, rfl, rfl, fun _ => by simp [mention], htypes⟩
  | some file =>
    refine ⟨rfl, rfl, rfl, rfl, rfl, rfl, rfl, rfl, fun file' => ?_, htypes⟩
    have hfiles : (u.mention (some file) ts).sections.files = u.sections.files.insert file := rfl
    rw [hfiles, Std.ExtTreeSet.mem_insert, Std.compare_eq_iff_eq, Option.some.injEq, or_comm]

/-- Where an operation fails after a run, it has mentioned the file and the types of what was to
be declared, and nothing else has changed.  The tables do not depend on being asked first either:
if they are written in place, an operation that is refused has not touched them, nor the supply of
ids. -/
theorem run_refused_unharmed {σ : Type} (config : Config) (ops : List (Operation σ))
    {op : Operation σ} {e : TableError} {u' : CompilationUnit}
    (h : (run config ops).apply op = (.error e, u')) :
    let u := run config ops
    (u' = u.mention op.file? op.types ∧ u.Unharmed op.file? u') ∧
    (∀ (op : Definitions.Operation) (s s' : Definitions.State) (e : TableError),
      Definitions.performInPlace op s = (.error e, s') ↔
        Definitions.perform s op = .error e ∧ s' = s) ∧
    (∀ (function : Stamp) (parent block : Block) (s s' : IdSupply × Locals) (e : TableError),
      Locals.enterChildInPlace function parent block s = (.error e, s') ↔
        s.2.enterChild s.1 function parent block = .error e ∧ s' = s) ∧
    (∀ (function stamp : Stamp) (block : Block) (s s' : IdSupply × Locals) (e : TableError),
      Locals.attachInPlace function stamp block s = (.error e, s') ↔
        s.2.attach function stamp block = .error e ∧ s' = s) ∧
    ∀ (id : EntryId) (update : TypeUpdate) (s s' : TypeTable.State) (e : TableError),
      TypeTable.updateInPlace id update s = (.error e, s') ↔
        s.2.update id update = .error e ∧ s' = s := by
  intro u
  have hcoherent : u.Coherent := run_coherent config ops
  obtain ⟨-, rfl⟩ := (hcoherent.apply_eq_error_iff op).1 h
  refine ⟨⟨rfl, unharmed_mention hcoherent.orderly.types op.file? op.types⟩, ?_, ?_, ?_, ?_⟩
  · exact fun _ _ _ _ => Definitions.performInPlace_eq_error_iff
  · exact fun _ _ _ _ _ _ => Locals.enterChildInPlace_eq_error_iff
  · exact fun _ _ _ _ _ _ => Locals.attachInPlace_eq_error_iff
  · exact fun _ _ _ _ _ => TypeTable.updateInPlace_eq_error_iff

/-- A prototype in another file, under the stamp of a variable.  The two pointers in it are interned
before it is refused. -/
theorem run_refused_unharmed_prototype :
    let int : TypeExpr Attr := .base [] (.integer .int)
    let var : VariableDecl :=
      { name := ⟨8⟩, stamp := ⟨2⟩, storage := .external, type := int, hasInitializer := true,
        loc := ⟨⟨1⟩, 3, 1⟩ }
    let call : PrototypeDecl :=
      { name := ⟨8⟩, stamp := ⟨2⟩, storage := .external,
        type := .unprototyped [] (.pointer [] (.pointer [] int)) false, loc := ⟨⟨4⟩, 5, 1⟩ }
    let u := run {} [(.declare (.variable var) : Operation Unit)]
    let refused : Operation Unit := .declare (.prototype call)
    let u' := (u.apply refused).2
    u.apply refused =
        (.error (.unexpectedVariant .definitions ⟨1⟩ "function" "global variable"), u') ∧
      u'.ids = ⟨4⟩ ∧ u.Unharmed (some ⟨4⟩) u' := by
  intro int var call u refused u'
  have hrefused : (u.apply refused).1 =
      .error (.unexpectedVariant .definitions ⟨1⟩ "function" "global variable") := by
    decide +kernel
  have hids : u'.ids = ⟨4⟩ := by
    decide +kernel
  have h : u.apply refused =
      (.error (.unexpectedVariant .definitions ⟨1⟩ "function" "global variable"), u') :=
    Prod.ext hrefused rfl
  exact ⟨h, hids, (run_refused_unharmed {} [(.declare (.variable var) : Operation Unit)] h).1.2⟩

end CompilationUnit

end DebugInfo
