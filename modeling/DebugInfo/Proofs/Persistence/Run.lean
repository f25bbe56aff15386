import DebugInfo.Proofs.IdSpace.Run

/-!
# Ids keep their meaning

The passes that fill a unit hold on to ids across operations of other passes.  They may: until the
unit is restarted, an id stays in its table and its entry only becomes what it may, and what led to the
id leads to it ever after.

New entries come under ids that are in no table, and new types under keys that lead nowhere yet.
This is known of tables that were filled by operations only, so it goes along as an invariant.
-/

namespace DebugInfo

namespace TypeTable

/-- Descriptors become only what they may, and every type that is found is found under its id. -/
structure Evolves (table table' : TypeTable) : Prop where
  entries : table.descriptors.Evolves Descriptor.Evolves table'.descriptors
  lookups : ∀ t id, table.lookup t = some id → table'.lookup t = some id

theorem Evolves.refl (table : TypeTable) : Evolves table table := ⟨.refl .refl _, fun _ _ h => h⟩

theorem Evolves.trans {t₁ t₂ t₃ : TypeTable} (h : Evolves t₁ t₂) (h' : Evolves t₂ t₃) :
    Evolves t₁ t₃ :=
  ⟨h.entries.trans Descriptor.Evolves.trans h'.entries,
    fun t id ht => h'.lookups t id (h.lookups t id ht)⟩

/-- Whatever is done to a sound table of types, it evolves. -/
theorem Sound.evolves_perform {s : State} (h : Sound s) (a : Action) :
    Evolves s.2 (perform s a).2 := by
  refine ⟨?_, fun t _ ht => (perform_sound h a).2.find? ht⟩
  -- Soundness unfolds descriptors and so is silent on members and targets: these need the steps.
  cases a with
  | intern t =>
    intro id d hd
    have hsame := (intern_appends t s).get?_of_lt (h.allocated id d hd)
    exact ⟨d, hsame.trans hd, .refl d⟩
  | update id u =>
    rcases perform_update s id u with heq | ⟨d, d', hd, hd', heq⟩
    · rw [heq]
      exact .refl .refl _
    · rw [heq]
      exact EntryMap.evolves_insert .refl hd (TypeUpdate.evolves_result? hd')
  | skip => exact .refl .refl _

end TypeTable

namespace CompilationUnit

/-- Nothing has changed its meaning between the two units. -/
structure Persists (u u' : CompilationUnit) : Prop where
  types : u.types.Evolves u'.types
  definitions : u.definitions.Evolves u'.definitions
  locals : u.locals.Evolves u'.locals

namespace Persists

theorem refl (u : CompilationUnit) : Persists u u := ⟨.refl _, .refl _, .refl _⟩

theorem trans {u₁ u₂ u₃ : CompilationUnit} (h : Persists u₁ u₂) (h' : Persists u₂ u₃) :
    Persists u₁ u₃ :=
  ⟨h.types.trans h'.types, h.definitions.trans h'.definitions, h.locals.trans h'.locals⟩

end Persists

/-- New entries do not get in the way of old ones. -/
structure Orderly (u : CompilationUnit) : Prop where
  space : OneIdSpace u
  types : TypeTable.Sound (u.ids, u.types)

/-- Where there is nothing, all is in order. -/
theorem orderly_of_isEmpty {u : CompilationUnit} (h : IsEmpty u) : Orderly u where
  space := oneIdSpace_of_isEmpty h
  types := by
    rw [h.types]
    exact .empty u.ids _

namespace Orderly

variable {u u' : CompilationUnit} (h : Orderly u)
include h

/-- An orderly unit stays so with one step. -/
theorem of_step (hstep : Step u u') : Orderly u' := by
  refine ⟨h.space.of_step hstep, ?_⟩
  cases hstep with
  | types a hperform =>
    rw [← hperform]
    exact (TypeTable.perform_sound h.types a).1
  | definitions hchange => exact h.types.mono hchange.draws.allocated
  | locals hchange => exact h.types.mono hchange.draws.allocated
  | output => exact h.types

/-- With one step of an orderly unit everything persists. -/
theorem persists_of_step (hstep : Step u u') : Persists u u' := by
  cases hstep with
  | types a hperform =>
    have hevolves := h.types.evolves_perform a
    rw [hperform] at hevolves
    exact ⟨hevolves, .refl _, .refl _⟩
  | definitions hchange =>
    exact ⟨.refl _, hchange.evolves (h.space.allocated .definitions), .refl _⟩
  | locals hchange => exact ⟨.refl _, .refl _, hchange.evolves (h.space.allocated .locals)⟩
  | output => exact ⟨.refl _, .refl _, .refl _⟩

/-- With any number of steps everything persists. -/
theorem of_steps (hsteps : Steps u u') : Orderly u' ∧ Persists u u' := by
  induction hsteps with
  | refl => exact ⟨h, .refl u⟩
  | tail _ hstep ih =>
    obtain ⟨horderly, hpersists⟩ := ih
    exact ⟨horderly.of_step hstep, hpersists.trans (horderly.persists_of_step hstep)⟩

end Orderly

/-! ## Runs -/

variable {σ : Type} {u : CompilationUnit}

/-- Without a restart everything persists through any operations. -/
theorem runFrom_persists (h : Orderly u) {ops : List (Operation σ)}
    (hops : ∀ op ∈ ops, ∀ name, op ≠ .restart name) : Persists u (u.runFrom ops) := by
  induction ops generalizing u with
  | nil => exact .refl u
  | cons op ops ih =>
    obtain ⟨horderly, hpersists⟩ := h.of_steps (u.apply_steps (hops op List.mem_cons_self))
    exact hpersists.trans (ih horderly fun op' hop' => hops op' (List.mem_cons_of_mem op hop'))

/-- From any point of a run to a later one without a restart in between, whether operations fail or
not, no entry leaves its table or becomes what it may not, and no stamp, no block and no type that led
to an id leads anywhere else. -/
theorem run_persists (config : Config) (before after : List (Operation σ))
    (hafter : ∀ op ∈ after, ∀ name, op ≠ .restart name) :
    (run config before).Persists (run config (before ++ after)) := by
  have hbefore : Orderly (run config before) :=
    run_induction orderly_of_isEmpty Orderly.of_step config before
  have hrun : run config (before ++ after) = (run config before).runFrom after := List.foldl_append
  rw [hrun]
  exact runFrom_persists hbefore hafter

/-- A struct is mentioned by a variable, and is then defined with a member that leads back to it.  A
prototype under the stamp of the variable is refused. -/
theorem run_persists_defined :
    let struct : TypeExpr Attr := .base [] (.composite .struct ⟨7⟩ ⟨1⟩)
    let var : VariableDecl :=
      { name := ⟨8⟩, stamp := ⟨2⟩, storage := .external, type := .pointer [] struct,
        hasInitializer := false, loc := ⟨⟨1⟩, 3, 1⟩ }
    let body : CompositeDecl :=
      { kind := .struct, tag := ⟨7⟩, stamp := ⟨1⟩, loc := ⟨⟨1⟩, 4, 1⟩,
        members := some [{ name := ⟨9⟩, type := .pointer [] struct, width := none }],
        byteSize := some 8 }
    let call : PrototypeDecl :=
      { name := ⟨8⟩, stamp := ⟨2⟩, storage := .external, type := struct, loc := ⟨⟨1⟩, 5, 1⟩ }
    let before : List (Operation Unit) := [.declare (.variable var)]
    let after : List (Operation Unit) := [.declare (.composite body), .declare (.prototype call)]
    (∀ op ∈ after, ∀ name, op ≠ .restart name) ∧
      (run {} (before ++ after)).types.lookup struct = some ⟨0⟩ ∧
      (run {} (before ++ after)).definitions.idByStamp? ⟨2⟩ = some ⟨2⟩ ∧
      ∃ d, (run {} (before ++ after)).types.get? ⟨0⟩ = some d ∧
        (Descriptor.composite { kind := .struct, tag := ⟨7⟩ }).Evolves d := by
  intro struct var body call before after
  have hafter : ∀ op ∈ after, ∀ name, op ≠ .restart name := by
    simp [after]
  have hlookup : (run {} before).types.lookup struct = some ⟨0⟩ := by
    decide +kernel
  have hstamp : (run {} before).definitions.idByStamp? ⟨2⟩ = some ⟨2⟩ := by
    decide +kernel
  have hentry : (run {} before).types.get? ⟨0⟩ =
      some (.composite { kind := .struct, tag := ⟨7⟩ }) := by
    decide +kernel
  have hpersists := run_persists {} before after hafter
  exact ⟨hafter, hpersists.types.lookups struct ⟨0⟩ hlookup,
    hpersists.definitions.stamps ⟨2⟩ ⟨2⟩ hstamp, hpersists.types.entries ⟨0⟩ _ hentry⟩

end CompilationUnit

end DebugInfo
