import DebugInfo.Proofs.Files.Run

/-!
# What has occurred in a run

A unit is what the operations since the last restart have made of it.  What an operation does
depends on the unit that it meets, so the history of a run is the list of its operations, each one
with the unit before it.  Nothing that came out of an occurrence has changed its meaning since.
-/

namespace DebugInfo

theorem filterMap_concat {α β : Type} (f : α → Option β) (as : List α) (a : α) :
    (as ++ [a]).filterMap f = as.filterMap f ++ (f a).toList := by
  rw [List.filterMap_append]
  cases h : f a <;> simp [h]

/-- The last of what the function says about elements of the list. -/
def lastSome? {α β : Type} (f : α → Option β) (as : List α) : Option β := (as.filterMap f).getLast?

@[simp] theorem lastSome?_nil {α β : Type} (f : α → Option β) : lastSome? f [] = none := rfl

@[simp] theorem lastSome?_concat {α β : Type} (f : α → Option β) (as : List α) (a : α) :
    lastSome? f (as ++ [a]) = (f a).or (lastSome? f as) := by
  rw [lastSome?, filterMap_concat, List.getLast?_append]
  cases f a <;> rfl

namespace CompilationUnit

variable {σ : Type}

/-- An operation in a run, with the unit that it was applied to. -/
structure Occurrence (σ : Type) where
  unit : CompilationUnit
  op : Operation σ

namespace Occurrence

def after (o : Occurrence σ) : CompilationUnit := (o.unit.apply o.op).2

/-- The id that the operation has answered with, if it has with any. -/
def id? (o : Occurrence σ) : Option EntryId :=
  match (o.unit.apply o.op).1 with
  | .ok (.id id?) => id?
  | _ => none

end Occurrence

/-! ## Histories -/

def occurrencesFrom (u : CompilationUnit) : List (Operation σ) → List (Occurrence σ)
  | [] => []
  | op :: ops => ⟨u, op⟩ :: occurrencesFrom (u.apply op).2 ops

/-- What has occurred in a run since the unit was last restarted, in order. -/
def occurrences (config : Config) (ops : List (Operation σ)) : List (Occurrence σ) :=
  (occurrencesFrom (new config) ops).rtakeWhile fun o => !o.op.isRestart

/-- One more operation happens in the unit that all the others led to. -/
theorem occurrencesFrom_concat (u : CompilationUnit) (ops : List (Operation σ))
    (op : Operation σ) :
    occurrencesFrom u (ops ++ [op]) = occurrencesFrom u ops ++ [⟨u.runFrom ops, op⟩] := by
  induction ops generalizing u with
  | nil => rfl
  | cons op' ops ih => exact congrArg (List.cons _) (ih (u.apply op').2)

/-- One more operation is the last one that happened, or begins anew. -/
theorem occurrences_concat (config : Config) (ops : List (Operation σ)) (op : Operation σ) :
    occurrences config (ops ++ [op]) =
      if op.isRestart then [] else occurrences config ops ++ [⟨run config ops, op⟩] := by
  rw [occurrences, occurrencesFrom_concat, List.rtakeWhile_concat]
  cases hop : op.isRestart <;> rfl

/-- What holds of a unit without entries, whose history is empty, and is kept by every other
operation with its occurrence, holds of a unit and its history after every run. -/
theorem occurrences_induction {P : List (Occurrence σ) → CompilationUnit → Prop}
    (hempty : ∀ {u}, IsEmpty u → P [] u)
    (hnext : ∀ {os : List (Occurrence σ)} {o : Occurrence σ}, o.op.isRestart = false →
      Coherent o.unit → P os o.unit → P (os ++ [o]) o.after)
    (config : Config) (ops : List (Operation σ)) :
    P (occurrences config ops) (run config ops) := by
  induction ops using List.reverseRecOn with
  | nil => exact hempty (isEmpty_new config)
  | append_singleton ops op ih =>
    rw [occurrences_concat, run_concat]
    cases hop : op.isRestart with
    | true =>
      obtain ⟨name, rfl⟩ := Operation.exists_of_isRestart hop
      exact hempty (isEmpty_restart _ name)
    | false => exact hnext (o := ⟨run config ops, op⟩) hop (run_coherent config ops) ih

/-- What happened are the operations since the unit was restarted. -/
theorem map_op_occurrences (config : Config) (ops : List (Operation σ)) :
    (occurrences config ops).map (·.op) = sinceRestart ops := by
  induction ops using List.reverseRecOn with
  | nil => rfl
  | append_singleton ops op ih =>
    rw [occurrences_concat, sinceRestart_concat]
    split
    · rfl
    · rw [List.map_append, ih]
      rfl

/-! ## What is left of an occurrence -/

/-- The unit has come from one that was filled by operations, by this occurrence and others after
it. -/
structure Occurrence.Precedes (o : Occurrence σ) (u : CompilationUnit) : Prop where
  coherent : Coherent o.unit
  op : o.op.isRestart = false
  after : o.after.Persists u

variable {o : Occurrence σ} {u : CompilationUnit}

/-- Without a restart nothing that is there is lost. -/
theorem Coherent.persists_apply (h : Coherent u) {op : Operation σ} (hop : op.isRestart = false) :
    u.Persists (u.apply op).2 := by
  refine (h.orderly.of_steps (u.apply_steps fun name => ?_)).2
  rintro rfl
  cases hop

/-- What was there when something happened is still there. -/
theorem Occurrence.Precedes.unit (h : o.Precedes u) : o.unit.Persists u :=
  (h.coherent.persists_apply h.op).trans h.after

/-- Whatever happened since the restart precedes the unit as it is. -/
theorem run_occurrences (config : Config) (ops : List (Operation σ)) :
    ∀ o ∈ occurrences config ops, o.Precedes (run config ops) := by
  refine occurrences_induction (P := fun os u => ∀ o ∈ os, o.Precedes u) ?_ ?_ config ops
  · exact fun _ _ ho => nomatch ho
  · intro os o hop ho h o' ho'
    rcases List.mem_append.1 ho' with ho' | ho'
    · obtain ⟨hcoherent, hop', hafter⟩ := h o' ho'
      exact ⟨hcoherent, hop', hafter.trans (ho.persists_apply hop)⟩
    · cases List.mem_singleton.1 ho'
      exact ⟨ho, hop, .refl _⟩

end CompilationUnit

end DebugInfo
