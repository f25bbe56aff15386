import Mathlib.Data.Finset.Card
import Mathlib.Data.List.Nodup

/-!
# First occurrences in a list

A list that grows at its end, without what it came across before: every element once, in the order
in which they came up first.
-/

namespace DebugInfo

variable {α : Type} [DecidableEq α]

/-- What comes up at the end is new, or it came up before. -/
theorem eraseDups_concat (as : List α) (a : α) :
    (as ++ [a]).eraseDups = if a ∈ as then as.eraseDups else as.eraseDups ++ [a] := by
  rw [List.eraseDups_append, List.removeAll, List.filter_singleton]
  split <;> simp_all [List.eraseDups_cons]

/-- Nothing is left twice. -/
theorem nodup_eraseDups (as : List α) : as.eraseDups.Nodup := by
  induction as using List.reverseRecOn with
  | nil => exact .nil
  | append_singleton as a ih =>
    rw [eraseDups_concat]
    split
    · exact ih
    · next hnew =>
      refine List.nodup_append.2 ⟨ih, List.pairwise_singleton _ a, ?_⟩
      rintro _ hmem _ hlast rfl
      rw [List.mem_singleton.1 hlast, List.mem_eraseDups] at hmem
      exact hnew hmem

/-- As many elements are left as there are different ones. -/
theorem length_eraseDups (as : List α) : as.eraseDups.length = as.toFinset.card := by
  rw [← List.toFinset_card_of_nodup (nodup_eraseDups as)]
  congr 1
  ext a
  rw [List.mem_toFinset, List.mem_toFinset, List.mem_eraseDups]

end DebugInfo
