import DebugInfo.Proofs.Interning.Appending
import DebugInfo.Proofs.Interning.Run

/-!
# Ids in descriptors

Every id in a descriptor is that of a type.  The types that a type is made of are there because
descriptors unfold, which is known of sound tables.  The members of a composite and the target of a
typedef name are not unfolded, as they may lead back to where they are; they are there because
nothing else is written into a descriptor.
-/

namespace DebugInfo

namespace Descriptor

/-- The ids of the types that a type is made of. -/
def parts : Descriptor → List EntryId
  | .pointer target => [target]
  | .array element _ => [element]
  | .function result params => result.toList ++ (params.getD []).map (·.2)
  | .qualified _ inner => [inner]
  | _ => []

/-- All ids in a descriptor. -/
def ids (d : Descriptor) : List EntryId := d.parts ++ d.references

variable {f : EntryId → Option CanonicalType} {t : CanonicalType}

/-- A result that unfolds is made of an id that does. -/
theorem exists_of_unfoldResult {result : Option EntryId} (h : unfoldResult f result = some t) :
    ∀ id ∈ result.toList, ∃ u, f id = some u := by
  intro id hid
  cases result with
  | none => cases hid
  | some r =>
    cases List.mem_singleton.1 hid
    exact ⟨t, h⟩

theorem exists_of_unfoldParams {ps : List (Name × EntryId)} {us : List (Name × CanonicalType)}
    (h : unfoldParams f ps = some us) : ∀ id ∈ ps.map (·.2), ∃ u, f id = some u := by
  induction ps generalizing us with
  | nil => simp
  | cons p ps ih =>
    obtain ⟨u, us', hu, hus, -⟩ := unfoldParams_cons_eq_some.1 h
    intro id hid
    rcases List.mem_cons.1 hid with rfl | hid
    · exact ⟨u, hu⟩
    · exact ih hus id hid

/-- A descriptor that unfolds has parts that do. -/
theorem exists_of_unfoldWith {d : Descriptor} (h : d.unfoldWith f = some t) :
    ∀ id ∈ d.parts, ∃ u, f id = some u := by
  cases d with
  | pointer target =>
    obtain ⟨u, hu, -⟩ := Option.map_eq_some_iff.1 h
    simpa [parts] using ⟨u, hu⟩
  | array element lengths =>
    obtain ⟨u, hu, -⟩ := Option.map_eq_some_iff.1 h
    simpa [parts] using ⟨u, hu⟩
  | qualified q inner =>
    obtain ⟨u, hu, -⟩ := Option.map_eq_some_iff.1 h
    simpa [parts] using ⟨u, hu⟩
  | function result params =>
    intro id hid
    cases params with
    | none =>
      obtain ⟨r, hr, -⟩ := Option.map_eq_some_iff.1 h
      exact exists_of_unfoldResult hr id (by simpa [parts] using hid)
    | some ps =>
      obtain ⟨r, hr, h⟩ := Option.bind_eq_some_iff.1 h
      obtain ⟨us, hus, -⟩ := Option.map_eq_some_iff.1 h
      rcases List.mem_append.1 hid with hid | hid
      · exact exists_of_unfoldResult hr id hid
      · exact exists_of_unfoldParams hus id hid
  | _ => simp [parts]

end Descriptor

namespace TypeTable

/-- There is a type under the id. -/
def Has (table : TypeTable) (id : EntryId) : Prop := ∃ d, table.get? id = some d

instance (table : TypeTable) (id : EntryId) : Decidable (table.Has id) :=
  decidable_of_iff _ Option.isSome_iff_exists

/-- What is in a table is in its extensions. -/
theorem Extends.has {a b : TypeTable} (h : Extends a b) {id : EntryId} (hid : a.Has id) :
    b.Has id := by
  obtain ⟨d, hd⟩ := hid
  obtain ⟨d', hd', -⟩ := h.descriptor id d hd
  exact ⟨d', hd'⟩

/-- An id that unfolds is in the table. -/
theorem has_of_unfold {table : TypeTable} {n : Nat} {id : EntryId} {t : CanonicalType}
    (h : table.unfold n id = some t) : table.Has id := by
  cases n with
  | zero => cases h
  | succ n =>
    obtain ⟨d, hd, -⟩ := Option.bind_eq_some_iff.1 h
    exact ⟨d, hd⟩

/-- In a sound table every part of a descriptor is there. -/
theorem Sound.has_of_mem_parts {s : State} (hs : Sound s) {id : EntryId} {d : Descriptor}
    (hd : s.2.get? id = some d) : ∀ part ∈ d.parts, s.2.Has part := by
  obtain ⟨k, hk⟩ := hs.keyed id d hd
  obtain ⟨t, -, n, u, hu, -⟩ := hs.represents k id hk
  cases n with
  | zero => cases hu
  | succ n =>
    rw [unfold, hd, Option.bind_some] at hu
    intro part hpart
    obtain ⟨u', hu'⟩ := Descriptor.exists_of_unfoldWith hu part hpart
    exact has_of_unfold hu'

/-! ## Closed tables -/

/-- A sound table whose descriptors refer to types only. -/
structure Closed (s : State) : Prop where
  sound : Sound s
  references : ∀ id d, s.2.get? id = some d → ∀ ref ∈ d.references, s.2.Has ref

variable {s : State}

theorem Closed.empty (ids : IdSupply) (mode : KeyMode) : Closed (ids, .empty mode) where
  sound := .empty ids mode
  references _ _ h := by simp [TypeTable.empty, get?] at h

theorem Closed.mono {ids : IdSupply} (h : Closed s) (hids : s.1.allocated ≤ ids.allocated) :
    Closed (ids, s.2) where
  sound := h.sound.mono hids
  references := h.references

/-- In a closed table every id in a descriptor is there. -/
theorem Closed.has_of_mem_ids (h : Closed s) {id : EntryId} {d : Descriptor}
    (hd : s.2.get? id = some d) : ∀ id' ∈ d.ids, s.2.Has id' := by
  intro id' hid'
  rcases List.mem_append.1 hid' with hid' | hid'
  · exact h.sound.has_of_mem_parts hd id' hid'
  · exact h.references id d hd id' hid'

/-- Interning keeps the table closed, and the id it gives is that of a type. -/
theorem Closed.intern (h : Closed s) (t : TypeExpr Attr) :
    Closed (intern t s).2 ∧ s.2.Extends (intern t s).2.2 ∧
      s.1.allocated ≤ (intern t s).2.1.allocated ∧ (intern t s).2.2.Has (intern t s).1 := by
  obtain ⟨hsound, hgrows, hid⟩ := intern_adds t s h.sound
  have happends := intern_appends t s
  refine ⟨⟨hsound, fun id d hd ref href => ?_⟩, hgrows.extends_, hgrows.allocated,
    hid.represents.get?⟩
  rcases happends.descriptor id d hd with hd | hnone
  · exact hgrows.extends_.has (h.references id d hd ref href)
  · rw [hnone] at href
    cases href

/-- An update keeps the table closed if what it refers to is there. -/
theorem Closed.update (h : Closed s) {id : EntryId} {u : TypeUpdate} {changed : Bool}
    {table : TypeTable} (hu : s.2.update id u = .ok (changed, table))
    (href : ∀ ref ∈ u.references, s.2.Has ref) :
    Closed (s.1, table) ∧ s.2.Extends table := by
  obtain ⟨d, d', hd, hd', rfl⟩ := exists_of_update_eq_ok hu
  have hext := extends_replace hd hd'
  refine ⟨⟨sound_replace hd hd' h.sound, fun id' e he ref hmem => hext.has ?_⟩, hext⟩
  rw [get?_replace] at he
  split at he
  · cases he
    rcases TypeUpdate.references_result? hd' with heq | heq
    · rw [heq] at hmem
      exact h.references id d hd ref hmem
    · rw [heq] at hmem
      exact href ref hmem
  · exact h.references id' e he ref hmem

end TypeTable

end DebugInfo
