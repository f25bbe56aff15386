import DebugInfo.Proofs.Unit.Frames

/-!
# Units one after the other

A unit is restarted for the next unit.  Each table is cleared and the supply of ids begins anew.  A
table that is cleared is an empty one, so the only way in which anything could be left of the units
before is by what a restart takes over: the configuration, and how the types are told apart.  No
operation touches the one or the other, and types are told apart as the configuration says from the
beginning.
-/

namespace DebugInfo

namespace TypeTable

/-- How types are told apart stays as it is. -/
theorem mode_perform (s : State) (a : Action) : (perform s a).2.mode = s.2.mode := by
  cases a with
  | intern t => exact (intern_interning t s).1.mode
  | update id u =>
    rcases perform_update s id u with heq | ⟨d, d', -, -, heq⟩ <;> rw [heq]
    rfl
  | skip => rfl

end TypeTable

namespace CompilationUnit

variable {σ τ ρ : Type} {u u' : CompilationUnit}

/-- Types are told apart as the configuration says. -/
def KeysAgree (u : CompilationUnit) : Prop := u.types.mode = u.config.keys

/-- No step makes the keys differ from the configuration. -/
theorem KeysAgree.of_step (h : KeysAgree u) (hstep : Step u u') : KeysAgree u' := by
  cases hstep with
  | types a hperform =>
    have hmode := TypeTable.mode_perform (u.ids, u.types) a
    rw [hperform] at hmode
    exact hmode.trans h
  | definitions | locals | output => exact h

/-- No operation makes the keys differ from the configuration. -/
theorem KeysAgree.apply (h : KeysAgree u) (op : Operation σ) : KeysAgree (u.apply op).2 := by
  by_cases hop : ∃ name, op = .restart name
  · obtain ⟨name, rfl⟩ := hop
    exact h
  · exact steps_induction KeysAgree.of_step h (u.apply_steps (not_exists.1 hop))

theorem KeysAgree.runFrom (h : KeysAgree u) (ops : List (Operation σ)) :
    KeysAgree (u.runFrom ops) := by
  induction ops generalizing u with
  | nil => exact h
  | cons op ops ih => exact ih (h.apply op)

/-- After any run the keys are of the configured sort. -/
theorem mode_run (config : Config) (ops : List (Operation σ)) :
    (run config ops).types.mode = config.keys := by
  have hkeys : KeysAgree (run config ops) := KeysAgree.runFrom (u := new config) rfl ops
  rw [hkeys, (run_output config ops).config]

/-- After a restart nothing is left of what came before. -/
theorem restart_run (config : Config) (ops : List (Operation σ)) (name : String) :
    (run config ops).restart name = { new config with name } := by
  rw [restart, TypeTable.clear_eq_empty, Definitions.clear_eq_empty, Locals.clear_eq_empty,
    Lifetimes.clear_eq_empty, Sections.clear_eq_empty, Labels.clear_eq_empty, mode_run,
    (run_output config ops).config]
  rfl

/-- The answers to a sequence of operations, each with the unit after it. -/
def transcript (u : CompilationUnit) :
    List (Operation σ) → List (Except TableError Answer × CompilationUnit)
  | [] => []
  | op :: ops => u.apply op :: (u.apply op).2.transcript ops

/-- Whatever was done before a unit is restarted, it is then what a new unit is, and answers as a
new one does from there on. -/
theorem run_isolated (config : Config) (before : List (Operation σ)) (before' : List (Operation τ))
    (name : String) (ops : List (Operation ρ)) :
    let u := run config (before ++ [.restart name])
    let u' := run config (before' ++ [.restart name])
    let v := run config [(.restart name : Operation ρ)]
    (u = v ∧ u' = v) ∧ u.transcript ops = v.transcript ops ∧
      u'.transcript ops = v.transcript ops := by
  intro u u' v
  have hv : v = { new config with name } := restart_run config ([] : List (Operation ρ)) name
  have hu : u = v := by
    rw [hv, ← restart_run config before name]
    exact run_concat config before (.restart name)
  have hu' : u' = v := by
    rw [hv, ← restart_run config before' name]
    exact run_concat config before' (.restart name)
  refine ⟨⟨hu, hu'⟩, ?_, ?_⟩
  · rw [hu]
  · rw [hu']

end CompilationUnit

end DebugInfo
