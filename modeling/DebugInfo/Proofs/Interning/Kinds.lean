import DebugInfo.Proofs.Interning.Run
import DebugInfo.Proofs.Interning.Shapes

/-!
# Updates and kinds of descriptors

An update fails in two ways: there is no descriptor under the id, or it is not of a kind that the
update works on.  Otherwise it succeeds, and the descriptor stays of its kind, so the next update of
that kind succeeds as well.
-/

namespace DebugInfo

namespace TypeUpdate

/-- The kinds of descriptors that the update works on, one by one. -/
def kinds : TypeUpdate → List String
  | .compositeSize _ | .members _ | .memberOffset _ _ | .memberLayout _ _ => ["composite"]
  | .enumerators _ | .enumSize _ => ["enum"]
  | .target _ => ["typedef"]
  | .loc _ => ["composite", "enum", "typedef"]

/-- An update applies to a descriptor exactly if it is of one of the kinds. -/
theorem exists_result?_iff {u : TypeUpdate} {d : Descriptor} :
    (∃ d', u.result? d = some d') ↔ d.kindName ∈ u.kinds := by
  cases u <;> cases d <;> simp [result?, kinds, Descriptor.kindName]
  all_goals next q _ => cases q <;> decide

/-- An update does not apply to a descriptor exactly if it is of another kind. -/
theorem result?_eq_none_iff {u : TypeUpdate} {d : Descriptor} :
    u.result? d = none ↔ d.kindName ∉ u.kinds := by
  rw [← exists_result?_iff, Option.eq_none_iff_forall_ne_some, not_exists]

/-- An update keeps the kind of a descriptor. -/
theorem kindName_result? {u : TypeUpdate} {d d' : Descriptor} (h : u.result? d = some d') :
    d'.kindName = d.kindName := by
  cases u <;> cases d <;> simp only [result?, Option.some.injEq, reduceCtorEq] at h <;> subst h <;>
    rfl

end TypeUpdate

namespace TypeTable

variable {table table' : TypeTable} {id : EntryId} {u : TypeUpdate} {d : Descriptor}

/-- An update fails where there is no descriptor, or one of another kind, and the error says which
of them. -/
theorem update_eq_error_iff {e : TableError} :
    table.update id u = .error e ↔
      (table.get? id = none ∧ e = .unknownId .types id) ∨
      ∃ d, table.get? id = some d ∧ d.kindName ∉ u.kinds ∧
        e = .unexpectedVariant .types id u.expected d.kindName := by
  unfold update
  cases hd : table.get? id with
  | none => simp [eq_comm]
  | some d =>
    simp only [← TypeUpdate.result?_eq_none_iff]
    cases hd' : u.result? d with
    | none => simp [hd', eq_comm]
    | some d' =>
      dsimp only
      split <;> simp [hd']

/-- An update of a descriptor of the right kind succeeds. -/
theorem exists_update_eq_ok {kind : String} (h : table.HasKind id kind) (hkind : kind ∈ u.kinds) :
    ∃ changed table', table.update id u = .ok (changed, table') := by
  obtain ⟨d, hd, rfl⟩ := h
  cases hd' : u.result? d with
  | none => exact absurd hkind (TypeUpdate.result?_eq_none_iff.1 hd')
  | some d' =>
    obtain ⟨changed, hupdate⟩ := update_of_result? hd hd'
    exact ⟨changed, _, hupdate⟩

/-- What has a kind keeps it if one descriptor is replaced by another of its kind. -/
theorem HasKind.replace {kind : String} {id' : EntryId} {d d' : Descriptor}
    (h : table.HasKind id' kind) (hd : table.get? id = some d) (hkind : d'.kindName = d.kindName) :
    (table.replace id d').HasKind id' kind := by
  obtain ⟨e, he, rfl⟩ := h
  rw [HasKind, get?_replace]
  split
  · next heq =>
    subst heq
    cases hd.symm.trans he
    exact ⟨d', rfl, hkind⟩
  · exact ⟨e, he, rfl⟩

/-- Base types are found as such after any action on the table. -/
theorem FindsBases.perform {s : State} (h : FindsBases s) (a : Action) :
    FindsBases (perform s a) := by
  cases a with
  | intern t => exact h.interns (intern_interning t s).1
  | update id u =>
    rcases perform_update s id u with heq | ⟨d, d', hd, hd', heq⟩
    · rwa [heq]
    · rw [heq]
      intro b id' hid'
      obtain ⟨hlt, hkind⟩ := h b id' hid'
      exact ⟨hlt, hkind.replace hd (TypeUpdate.kindName_result? hd')⟩
  | skip => exact h.mono (Nat.le_succ _)

end TypeTable

end DebugInfo
