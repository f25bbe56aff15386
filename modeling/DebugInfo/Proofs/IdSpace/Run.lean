import DebugInfo.Proofs.Unit.Steps

/-!
# One space of ids

The tables of types, definitions and locals take their ids from one supply, so an id says by itself
which entry is meant.  What an operation does to the ids is said of the units before and after it,
whether it fails or not: the one can be reached from the other by taking ids one at a time, each of
which is in no table before and in one at most afterwards.  So an id that comes into use was not
handed out before, and no id goes out of use.
-/

namespace DebugInfo.CompilationUnit

/-- The table has an entry under the id. -/
def Holds (u : CompilationUnit) : Table → EntryId → Prop
  | .types => u.types.descriptors.Has
  | .definitions => u.definitions.entries.Has
  | .locals => u.locals.entries.Has

structure OneIdSpace (u : CompilationUnit) : Prop where
  allocated : ∀ table, u.ids.Covers (u.Holds table)
  unique : ∀ table table' id, u.Holds table id → u.Holds table' id → table = table'

/-- From the first unit to the second at most one id is taken from the supply.  No table has an entry
under it before, at most one has afterwards, and no other id comes into use. -/
structure Moment (u u' : CompilationUnit) : Prop where
  fresh : ∀ table, ¬ u.Holds table u.ids.fresh.1
  draws : ∀ table, Draws u.ids (u.Holds table) u'.ids (u'.Holds table)
  single : ∀ table table', u'.Holds table u.ids.fresh.1 → u'.Holds table' u.ids.fresh.1 →
    table = table'

/-- The second unit can be reached from the first in this way, an id at a time.  The units in between
may be any, and need not be those that an operation passes through. -/
abbrev Moments : CompilationUnit → CompilationUnit → Prop := Relation.ReflTransGen Moment

theorem oneIdSpace_of_isEmpty {u : CompilationUnit} (h : IsEmpty u) : OneIdSpace u := by
  have hnone (table : Table) (id : EntryId) : ¬ u.Holds table id := by
    intro hid
    cases table with
    | types =>
      obtain ⟨d, hd⟩ := hid
      rw [h.types] at hd
      simp [TypeTable.empty] at hd
    | definitions =>
      obtain ⟨d, hd⟩ := hid
      have hget : (∅ : Definitions).get? id = some d := h.definitions ▸ hd
      simp at hget
    | locals =>
      obtain ⟨e, he⟩ := hid
      have hget : (∅ : Locals).get? id = some e := h.locals ▸ he
      simp at hget
  exact ⟨fun table id hid => absurd hid (hnone table id),
    fun table _ id hid => absurd hid (hnone table id)⟩

namespace OneIdSpace

variable {u u' : CompilationUnit} (h : OneIdSpace u)
include h

/-- The next id is in no table. -/
theorem not_holds_fresh (table : Table) : ¬ u.Holds table u.ids.fresh.1 :=
  (h.allocated table).not_fresh

/-! ## Moments -/

/-- Where one id is taken in this way, no two tables come to share one. -/
theorem of_moment (hmoment : Moment u u') : OneIdSpace u' where
  allocated table := (hmoment.draws table).covers (h.allocated table)
  unique table table' id hid hid' := by
    -- The id was in use in both tables before, or it has been taken and was in use in neither.
    rcases (hmoment.draws table).new id hid with hold | ⟨rfl, -⟩
    · rcases (hmoment.draws table').new id hid' with hold' | ⟨rfl, -⟩
      · exact h.unique table table' id hold hold'
      · exact absurd hold (h.not_holds_fresh table)
    · exact hmoment.single table table' hid hid'

/-- Neither do they where ids are taken one after the other. -/
theorem of_moments (hmoments : Moments u u') : OneIdSpace u' := by
  induction hmoments with
  | refl => exact h
  | tail _ hmoment ih => exact ih.of_moment hmoment

/-- An id is taken for one table, and the others stay as they are. -/
theorem moment (table : Table)
    (hdraws : Draws u.ids (u.Holds table) u'.ids (u'.Holds table))
    (hothers : ∀ other, other ≠ table → u'.Holds other = u.Holds other) : Moment u u' := by
  have hfresh (other : Table) (hheld : u'.Holds other u.ids.fresh.1) : other = table := by
    by_contra hne
    rw [hothers other hne] at hheld
    exact h.not_holds_fresh other hheld
  refine ⟨h.not_holds_fresh, fun other => ?_, fun other other' hheld hheld' => ?_⟩
  · by_cases heq : other = table
    · rw [heq]
      exact hdraws
    · rw [hothers other heq]
      exact ⟨hdraws.supply, fun _ hid => hid, fun _ hid => .inl hid⟩
  · rw [hfresh other hheld, hfresh other' hheld']

/-- An id may be taken for a type. -/
theorem moment_types {ids : IdSupply} {types : TypeTable}
    (hdraws : Draws u.ids u.types.descriptors.Has ids types.descriptors.Has) :
    Moment u { u with ids, types } := by
  refine h.moment .types hdraws fun other hne => ?_
  cases other with
  | types => exact absurd rfl hne
  | definitions | locals => rfl

/-- The types that a type is made of are added before it, each under an id of its own. -/
theorem moments_appends {s : TypeTable.State} (hs : TypeTable.Appends (u.ids, u.types) s) :
    Moments u { u with ids := s.1, types := s.2 } := by
  induction hs with
  | refl => exact .refl
  | @add s _ t d _ ih =>
    have hspace := h.of_moments ih
    exact ih.tail (hspace.moment_types (s.2.descriptors.draws_insert_fresh s.1 d))

/-- Whatever is done to the table of types takes ids one after the other. -/
theorem moments_types (a : TypeTable.Action) {ids : IdSupply} {types : TypeTable}
    (hperform : TypeTable.perform (u.ids, u.types) a = (ids, types)) :
    Moments u { u with ids, types } := by
  cases a with
  | intern t =>
    have happends := TypeTable.intern_appends t (u.ids, u.types)
    have hintern : (TypeTable.intern t (u.ids, u.types)).2 = (ids, types) := hperform
    rw [hintern] at happends
    exact h.moments_appends happends
  | update id update =>
    rcases TypeTable.perform_update (u.ids, u.types) id update with heq | ⟨d, d', hd, -, heq⟩
    · cases heq.symm.trans hperform
      exact .refl
    · cases heq.symm.trans hperform
      exact .single (h.moment_types (EntryMap.draws_insert hd u.ids d'))
  | skip =>
    cases hperform
    exact .single (h.moment_types (.spare fun _ => .rfl))

/-- Every step takes its ids one after the other. -/
theorem moments_of_step (hstep : Step u u') : Moments u u' := by
  cases hstep with
  | types a hperform => exact h.moments_types a hperform
  | definitions hchange =>
    refine .single (h.moment .definitions hchange.draws fun other hne => ?_)
    cases other with
    | definitions => exact absurd rfl hne
    | types | locals => rfl
  | locals hchange =>
    refine .single (h.moment .locals hchange.draws fun other hne => ?_)
    cases other with
    | locals => exact absurd rfl hne
    | types | definitions => rfl
  | output => exact .single (h.moment .types (.nothing fun _ => .rfl) fun _ _ => rfl)

theorem of_step (hstep : Step u u') : OneIdSpace u' := h.of_moments (h.moments_of_step hstep)

theorem moments_of_steps (hsteps : Steps u u') : Moments u u' := by
  induction hsteps with
  | refl => exact .refl
  | tail _ hstep ih => exact ih.trans ((h.of_moments ih).moments_of_step hstep)

end OneIdSpace

/-! ## Runs -/

variable {σ : Type}

/-- After any run, no two tables have an id in common and every id in them was handed out, so the
next id is in none of them.  Whether a further operation fails or not, the unit after it can be
reached by taking ids one at a time: what was in use is still in use, and what comes into use was not
handed out before and is in one table only. -/
theorem run_oneIdSpace (config : Config) (ops : List (Operation σ)) :
    let u := run config ops
    u.OneIdSpace ∧ (∀ table, ¬ u.Holds table (freshId u).1) ∧
      ∀ op : Operation σ, (∀ name, op ≠ .restart name) → Moments u (u.apply op).2 := by
  intro u
  have h : u.OneIdSpace := run_induction oneIdSpace_of_isEmpty OneIdSpace.of_step config ops
  exact ⟨h, h.not_holds_fresh, fun op hop => h.moments_of_steps (u.apply_steps hop)⟩

/-- A prototype under the stamp of a variable is refused, after ids went to the types in it. -/
theorem run_oneIdSpace_refused :
    let int : TypeExpr Attr := .base [] (.integer .int)
    let var : VariableDecl :=
      { name := ⟨8⟩, stamp := ⟨2⟩, storage := .external, type := int, hasInitializer := true,
        loc := ⟨⟨1⟩, 3, 1⟩ }
    let call : PrototypeDecl :=
      { name := ⟨8⟩, stamp := ⟨2⟩, storage := .external,
        type := .unprototyped [] (.pointer [] (.pointer [] int)) false, loc := ⟨⟨1⟩, 5, 1⟩ }
    let refused : Operation Unit := .declare (.prototype call)
    let u := run {} [(.declare (.variable var) : Operation Unit)]
    (u.apply refused).1.isOk = false ∧ (u.apply refused).2.types.get? ⟨3⟩ = some (.pointer ⟨2⟩) ∧
      Moments u (u.apply refused).2 := by
  intro int var call refused u
  have hrefused : (u.apply refused).1.isOk = false := by
    decide +kernel
  have htype : (u.apply refused).2.types.get? ⟨3⟩ = some (.pointer ⟨2⟩) := by
    decide +kernel
  have hmoments := (run_oneIdSpace {} [(.declare (.variable var) : Operation Unit)]).2.2 refused
  exact ⟨hrefused, htype, hmoments fun name h => nomatch h⟩

end DebugInfo.CompilationUnit
