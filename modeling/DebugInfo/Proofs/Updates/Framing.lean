import DebugInfo.Proofs.Interning.Kinds

/-!
# What an update writes

An update of a descriptor that is of the right kind writes into it, and does nothing else.  To write
the same a second time makes no difference, so the second time the answer is that nothing changed.
-/

namespace DebugInfo

namespace TypeUpdate

variable {u : TypeUpdate} {d d' : Descriptor}

/-- The descriptor with what the update writes.  One of another kind stays as it is. -/
def write (u : TypeUpdate) (d : Descriptor) : Descriptor := (u.result? d).getD d

/-- An update has a result if it is made for the kind of descriptor, and the result is what it
writes. -/
theorem result?_eq_some_iff : u.result? d = some d' ↔ d.kindName ∈ u.kinds ∧ u.write d = d' := by
  rw [← exists_result?_iff, write]
  cases u.result? d <;> simp

/-- An update writes nothing into a descriptor of another kind. -/
theorem write_of_not_mem (h : d.kindName ∉ u.kinds) : u.write d = d := by
  rw [write, result?_eq_none_iff.2 h]
  rfl

/-- To write an update keeps the kind. -/
theorem kindName_write (u : TypeUpdate) (d : Descriptor) : (u.write d).kindName = d.kindName := by
  by_cases h : d.kindName ∈ u.kinds
  · exact kindName_result? (result?_eq_some_iff.2 ⟨h, rfl⟩)
  · rw [write_of_not_mem h]

/-! ## Members -/

/-- The member that an update works on, if it is about one, and what it makes of it. -/
def member? : TypeUpdate → Option (Name × (Member → Member))
  | .memberOffset name n => some (name, ({ · with byteOffset := some n }))
  | .memberLayout name l => some (name, Member.withLayout l)
  | _ => none

variable {name : Name} {f : Member → Member}

/-- An update of a member writes into the first member of that name. -/
theorem write_of_member? (h : u.member? = some (name, f)) (c : Composite) :
    u.write (.composite c) = .composite { c with members := updateMember name f c.members } := by
  cases u <;> cases h <;> rfl

/-- An update of a member keeps its name. -/
theorem name_of_member? (h : u.member? = some (name, f)) (m : Member) : (f m).name = m.name := by
  cases u <;> cases h <;> rfl

/-- To write into a member twice is to do so once. -/
theorem idem_of_member? (h : u.member? = some (name, f)) (m : Member) : f (f m) = f m := by
  cases u <;> cases h <;> rfl

/-- Two writes into the member of one name are one write of both. -/
theorem updateMember_updateMember (hf : ∀ m, (f m).name = m.name) (g : Member → Member)
    (ms : List Member) :
    updateMember name g (updateMember name f ms) = updateMember name (g ∘ f) ms := by
  refine updateFirst_updateFirst (fun m hm => ?_) g ms
  rwa [hf]

/-- Only a struct or a union has members to update. -/
theorem exists_composite_of_member? (h : u.member? = some (name, f))
    (hkind : d.kindName ∈ u.kinds) : ∃ c, d = .composite c := by
  obtain ⟨d', hd'⟩ := exists_result?_iff.2 hkind
  cases u <;> cases h <;> cases d <;> simp [result?] at hd' ⊢

/-- At most the first member of that name is changed. -/
inductive ChangesFirst (name : Name) (f : Member → Member) : List Member → List Member → Prop where
  | none {ms : List Member} (h : ∀ m ∈ ms, m.name ≠ name) : ChangesFirst name f ms ms
  | first {before : List Member} {m : Member} (hbefore : ∀ m' ∈ before, m'.name ≠ name)
      (hm : m.name = name) (after : List Member) :
      ChangesFirst name f (before ++ m :: after) (before ++ f m :: after)

/-- Of the members of one name the first is changed, and no other. -/
theorem changesFirst_updateMember (name : Name) (f : Member → Member) (ms : List Member) :
    ChangesFirst name f ms (updateMember name f ms) := by
  cases hfind : ms.find? (·.name == name) with
  | none =>
    have hnone : ∀ m ∈ ms, (m.name == name) = false := by simpa using hfind
    rw [updateMember, updateFirst_of_forall_not hnone]
    exact .none fun m hm => by simpa using hnone m hm
  | some m =>
    obtain ⟨hm, before, after, rfl, hbefore⟩ := List.find?_eq_some_iff_append.1 hfind
    have hbefore : ∀ m' ∈ before, (m'.name == name) = false := by simpa using hbefore
    rw [updateMember, updateFirst_append_cons f hbefore hm]
    exact .first (fun m' hm' => by simpa using hbefore m' hm') (by simpa using hm) after

/-! ## Writing again -/

/-- What is written is there already the second time. -/
theorem write_write (u : TypeUpdate) (d : Descriptor) : u.write (u.write d) = u.write d := by
  by_cases hkind : d.kindName ∈ u.kinds
  · cases hmember : u.member? with
    | some r =>
      obtain ⟨name, f⟩ := r
      obtain ⟨c, rfl⟩ := exists_composite_of_member? hmember hkind
      have hidem : f ∘ f = f := funext (idem_of_member? hmember)
      simp only [write_of_member? hmember, updateMember_updateMember (name_of_member? hmember),
        hidem]
    | none =>
      -- The other updates put a value where they write, except that a location is put only once.
      cases u <;> cases d <;> simp [write, result?, member?] at hmember ⊢
  · rw [write_of_not_mem hkind, write_of_not_mem hkind]

end TypeUpdate

namespace TypeTable

open TypeUpdate

variable {table table' : TypeTable} {id : EntryId} {u : TypeUpdate} {changed : Bool}

/-- An update succeeds where there is a descriptor of its kind, and says whether it has changed
anything. -/
theorem update_eq_ok_iff : table.update id u = .ok (changed, table') ↔
    ∃ d, table.get? id = some d ∧ d.kindName ∈ u.kinds ∧ changed = decide (u.write d ≠ d) ∧
      table' = table.replace id (u.write d) := by
  cases hd : table.get? id with
  | none => simp [update, hd]
  | some d =>
    cases hd' : u.result? d with
    | none => simp [update, hd, hd', result?_eq_none_iff.1 hd']
    | some d' =>
      obtain ⟨hkind, rfl⟩ := result?_eq_some_iff.1 hd'
      by_cases heq : u.write d = d
      · simp [update, hd, hd', hkind, heq, replace_of_get? hd, eq_comm]
      · simp [update, hd, hd', hkind, heq, Ne.symm heq, replace, eq_comm]

/-- An update that succeeds changes at most the descriptor of its id, which stays of its kind, and
says whether it did.  To repeat it changes nothing.  An update of a member changes the first member
of that name and nothing else. -/
theorem update_framed (h : table.update id u = .ok (changed, table')) :
    (table'.mode = table.mode ∧ table'.keys = table.keys ∧
      ∀ id', id' ≠ id → table'.get? id' = table.get? id') ∧
    (∃ d d', table.get? id = some d ∧ table'.get? id = some d' ∧
      d'.kindName = d.kindName ∧ (changed = true ↔ d' ≠ d) ∧
      ∀ name f, u.member? = some (name, f) → ∃ c ms, d = .composite c ∧
        d' = .composite { c with members := ms } ∧ ChangesFirst name f c.members ms) ∧
    (changed = false ↔ table' = table) ∧
    table'.update id u = .ok (false, table') := by
  obtain ⟨d, hd, hkind, rfl, rfl⟩ := update_eq_ok_iff.1 h
  have hget : (table.replace id (u.write d)).get? id = some (u.write d) := by
    rw [get?_replace, if_pos rfl]
  refine ⟨⟨rfl, rfl, fun id' hne => ?_⟩, ⟨d, u.write d, hd, hget, kindName_write u d, by simp, ?_⟩,
    ?_, ?_⟩
  · rw [get?_replace, if_neg hne.symm]
  · intro name f hmember
    obtain ⟨c, rfl⟩ := exists_composite_of_member? hmember hkind
    exact ⟨c, _, rfl, write_of_member? hmember c, changesFirst_updateMember name f c.members⟩
  · constructor
    · intro hsame
      have hwrite : u.write d = d := by simpa using hsame
      rw [hwrite, replace_of_get? hd]
    · intro htable
      rw [htable, hd, Option.some.injEq] at hget
      simp [← hget]
  · refine update_eq_ok_iff.2 ⟨u.write d, hget, ?_, ?_, ?_⟩
    · rwa [kindName_write]
    · simp [write_write]
    · rw [write_write, replace_of_get? hget]

/-- Of two members of one name, the first one gets the offset, and it does so once. -/
theorem update_framed_twins :
    let twin : Member := { name := ⟨2⟩, type := ⟨0⟩ }
    let c : Composite := { kind := .union, tag := ⟨1⟩, members := [twin, twin] }
    let u : TypeUpdate := .memberOffset ⟨2⟩ 4
    let table := (empty .spelling).replace ⟨5⟩ (.composite c)
    let table' := table.replace ⟨5⟩ (.composite { c with
      members := [{ twin with byteOffset := some 4 }, twin] })
    table.update ⟨5⟩ u = .ok (true, table') ∧ table' ≠ table ∧
      table'.update ⟨5⟩ u = .ok (false, table') := by
  intro twin c u table table'
  have hd : table.get? ⟨5⟩ = some (.composite c) := by rw [get?_replace, if_pos rfl]
  have hupdate : table.update ⟨5⟩ u = .ok (true, table') :=
    update_eq_ok_iff.2 ⟨_, hd, by decide, by decide, rfl⟩
  obtain ⟨-, -, hchanged, hagain⟩ := update_framed hupdate
  have hne : table' ≠ table := fun heq => nomatch hchanged.2 heq
  exact ⟨hupdate, hne, hagain⟩

end TypeTable

end DebugInfo
