import DebugInfo.Proofs.Interning.Soundness
import Mathlib.Logic.ExistsUnique

/-!
# Runs of interning and updates

A run starts with an empty table and may find any number of ids handed out already, so it may stand
for what happens after a restart.  It interns types and updates them in any order, also with updates
that fail, and ids may go to other tables in between.

Every step keeps the table sound and only extends it.  So at the end of a run every type that was
interned is still found under the id it got.
-/

namespace DebugInfo.TypeTable

open TypeExpr

/-- What is done to a table of types between two times that it is cleared. -/
inductive Action where
  | intern (t : TypeExpr Attr)
  | update (id : EntryId) (u : TypeUpdate)
  /-- An id is handed out to something that is not a type. -/
  | skip

/-- A failed update changes nothing. -/
def perform (s : State) : Action → State
  | .intern t => (intern t s).2
  | .update id u =>
    match s.2.update id u with
    | .ok (_, table) => (s.1, table)
    | .error _ => s
  | .skip => (s.1.fresh.2, s.2)

def runFrom (s : State) (actions : List Action) : State := actions.foldl perform s

/-- The types that are interned, in turn, with the ids they get. -/
def interned (s : State) : List Action → List (TypeExpr Attr × EntryId)
  | [] => []
  | .intern t :: actions => (t, (intern t s).1) :: interned (perform s (.intern t)) actions
  | a :: actions => interned (perform s a) actions

/-! ## One step -/

variable {s : State} {id : EntryId} {u : TypeUpdate}

/-- The table with another descriptor for an id. -/
def replace (table : TypeTable) (id : EntryId) (d : Descriptor) : TypeTable :=
  { table with descriptors := table.descriptors.insert id d }

section Update

variable {table table' : TypeTable} {d d' : Descriptor}

theorem replace_of_get? (hd : table.get? id = some d) : table.replace id d = table := by
  rw [replace, insert_of_getElem? hd]

/-- An update that works on the descriptor replaces it, maybe by itself. -/
theorem update_of_result? (hd : table.get? id = some d) (hd' : u.result? d = some d') :
    ∃ changed, table.update id u = .ok (changed, table.replace id d') := by
  by_cases heq : d' = d
  · subst heq
    exact ⟨false, by simp [update, hd, hd', replace_of_get? hd]⟩
  · exact ⟨true, by simp [update, hd, hd', heq, replace]⟩

/-- An update that succeeds replaces the descriptor by its result. -/
theorem exists_of_update_eq_ok {changed : Bool} (h : table.update id u = .ok (changed, table')) :
    ∃ d d', table.get? id = some d ∧ u.result? d = some d' ∧ table' = table.replace id d' := by
  cases hd : table.get? id with
  | none => simp [update, hd] at h
  | some d =>
    cases hd' : u.result? d with
    | none => simp [update, hd, hd'] at h
    | some d' =>
      obtain ⟨_, hupdate⟩ := update_of_result? hd hd'
      cases h.symm.trans hupdate
      exact ⟨d, d', rfl, hd', rfl⟩

end Update

/-- An update fails and changes nothing, or replaces a descriptor by its result. -/
theorem perform_update (s : State) (id : EntryId) (u : TypeUpdate) :
    perform s (.update id u) = s ∨ ∃ d d', s.2.get? id = some d ∧ u.result? d = some d' ∧
      perform s (.update id u) = (s.1, s.2.replace id d') := by
  cases hupdate : s.2.update id u with
  | error e => exact .inl (by simp only [perform, hupdate])
  | ok r =>
    obtain ⟨d, d', hd, hd', htable⟩ := exists_of_update_eq_ok hupdate
    exact .inr ⟨d, d', hd, hd', by simp only [perform, hupdate, htable]⟩

section Replace

variable {d d' : Descriptor} (hd : s.2.get? id = some d) (hd' : u.result? d = some d')

/-- To replace a descriptor changes what is found under its id only. -/
theorem get?_replace (table : TypeTable) (id id' : EntryId) (d : Descriptor) :
    (table.replace id d).get? id' = if id = id' then some d else table.get? id' := by
  simp only [replace, get?, Std.ExtTreeMap.getElem?_insert, Std.compare_eq_iff_eq]

include hd in
/-- To replace a descriptor brings no new id into use. -/
theorem exists_of_get?_replace {id' : EntryId} {e : Descriptor}
    (h : (s.2.replace id d').get? id' = some e) : ∃ e', s.2.get? id' = some e' := by
  rw [get?_replace] at h
  split at h
  · next heq => exact ⟨d, heq ▸ hd⟩
  · exact ⟨e, h⟩

include hd hd' in
/-- What unfolds to a type does so still after a descriptor has been updated. -/
theorem extends_replace : s.2.Extends (s.2.replace id d') := by
  refine ⟨rfl, ?_, fun _ _ h => h⟩
  intro id' e he
  rw [get?_replace]
  split
  · next heq =>
    subst heq
    rw [hd] at he
    cases he
    exact ⟨d', rfl, fun _ => Descriptor.unfoldWith_result? hd'⟩
  · exact ⟨e, he, fun _ => rfl⟩

include hd hd' in
/-- A table stays sound where a descriptor is updated. -/
theorem sound_replace (hs : Sound s) : Sound (s.1, s.2.replace id d') := by
  constructor
  · intro id' e h
    obtain ⟨e', he'⟩ := exists_of_get?_replace hd h
    exact hs.allocated id' e' he'
  · intro k id' h
    obtain ⟨t, hk, ht⟩ := hs.represents k id' h
    exact ⟨t, hk, ht.mono (extends_replace hd hd')⟩
  · exact hs.injective
  · intro id' e h
    obtain ⟨e', he'⟩ := exists_of_get?_replace hd h
    exact hs.keyed id' e' he'

end Replace

/-- One action keeps the table sound, and extends it. -/
theorem perform_sound (hs : Sound s) (a : Action) :
    Sound (perform s a) ∧ s.2.Extends (perform s a).2 := by
  cases a with
  | intern t =>
    obtain ⟨hsound, hgrows, -⟩ := intern_adds t s hs
    exact ⟨hsound, hgrows.extends_⟩
  | update id u =>
    rcases perform_update s id u with heq | ⟨d, d', hd, hd', heq⟩
    · rw [heq]
      exact ⟨hs, .refl s.2⟩
    · rw [heq]
      exact ⟨sound_replace hd hd' hs, extends_replace hd hd'⟩
  | skip => exact ⟨hs.mono (Nat.le_succ _), .refl s.2⟩

/-! ## A whole run -/

/-- A run of actions keeps the table sound, and extends it. -/
theorem runFrom_sound (hs : Sound s) (actions : List Action) :
    Sound (runFrom s actions) ∧ s.2.Extends (runFrom s actions).2 := by
  induction actions generalizing s with
  | nil => exact ⟨hs, .refl s.2⟩
  | cons a actions ih =>
    obtain ⟨hsound, hext⟩ := perform_sound hs a
    obtain ⟨hsound', hext'⟩ := ih hsound
    exact ⟨hsound', hext.trans hext'⟩

/-- What a type got when it was interned is what is found at the end. -/
theorem lookup_of_mem_interned (hs : Sound s) {actions : List Action}
    {p : TypeExpr Attr × EntryId} (hp : p ∈ interned s actions) :
    (runFrom s actions).2.lookup p.1 = some p.2 := by
  induction actions generalizing s with
  | nil => simp [interned] at hp
  | cons a actions ih =>
    obtain ⟨hsound, -⟩ := perform_sound hs a
    cases a with
    | intern t =>
      rcases List.mem_cons.1 hp with rfl | hp
      · obtain ⟨-, -, hid⟩ := intern_adds t s hs
        exact (runFrom_sound hsound actions).2.find? hid.find?
      · exact ih hsound hp
    | update id u => exact ih hsound hp
    | skip => exact ih hsound hp

/-- A type is found exactly if to intern it answers the id and changes nothing. -/
theorem lookup_eq_some_iff (hs : Sound s) (t : TypeExpr Attr) (id : EntryId) :
    s.2.lookup t = some id ↔ intern t s = (id, s) := by
  constructor
  · exact intern_of_lookup
  · intro h
    obtain ⟨-, -, hid⟩ := intern_adds t s hs
    rw [h] at hid
    exact hid.find?

/-- After interning a type, following ids from its id ends and leads back to the type, up to what a
descriptor does not hold and what the key does not see. -/
theorem exists_unfold_intern (mode : KeyMode) (ids : IdSupply) (actions : List Action)
    (t : TypeExpr Attr) :
    let (id, _, table) := intern t (runFrom (ids, .empty mode) actions)
    ∃ u, (∃ n, ∀ m ≥ n, table.unfold m id = some u) ∧
      u.reduced mode = t.canonical.plain.reduced mode := by
  obtain ⟨hsound, hext⟩ := runFrom_sound (.empty ids mode) actions
  obtain ⟨-, hgrows, hid⟩ := intern_adds t _ hsound
  obtain ⟨n, u, hu, hm⟩ := hid.represents
  refine ⟨u, ⟨n, fun m hnm => unfold_mono (.refl _) hnm hu⟩, ?_⟩
  rw [Matches, hgrows.extends_.mode, hext.mode] at hm
  exact hm

/-- Two types that were interned got the same id if and only if they have the same key, every
descriptor has exactly one key, and a type is found if and only if interning it adds nothing. -/
theorem interned_exact (mode : KeyMode) (ids : IdSupply) (actions : List Action) :
    let s := runFrom (ids, .empty mode) actions
    let log := interned (ids, .empty mode) actions
    (∀ p ∈ log, ∀ q ∈ log,
      p.2 = q.2 ↔ TypeKey.of mode p.1.canonical = TypeKey.of mode q.1.canonical) ∧
    (∀ id d, s.2.get? id = some d → ∃! k : TypeKey, s.2.keys[k]? = some id) ∧
    (∀ t id, s.2.lookup t = some id ↔ intern t s = (id, s)) ∧
    ∀ p ∈ log, s.2.lookup p.1 = some p.2 := by
  intro s log
  obtain ⟨hs, hext⟩ := runFrom_sound (.empty ids mode) actions
  have hmode : s.2.mode = mode := hext.mode
  have hlog : ∀ p ∈ log, s.2.lookup p.1 = some p.2 :=
    fun p hp => lookup_of_mem_interned (.empty ids mode) hp
  refine ⟨?_, ?_, lookup_eq_some_iff hs, hlog⟩
  · intro p hp q hq
    have hp := hlog p hp
    have hq := hlog q hq
    rw [lookup, find?, hmode] at hp hq
    constructor
    · intro heq
      rw [← heq] at hq
      exact hs.injective _ _ _ hp hq
    · intro heq
      rw [heq, hq] at hp
      exact (Option.some.inj hp).symm
  · intro id d h
    obtain ⟨k, hk⟩ := hs.keyed id d h
    exact ⟨k, hk, fun k' hk' => hs.injective k' k id hk' hk⟩

/-- A function whose only parameter is `void` and one without parameters share a key, and so an id,
also if an id is skipped in between. -/
theorem interned_exact_void_prototype :
    let int : TypeExpr Attr := .base [] (.integer .int)
    let f : TypeExpr Attr := .function [] int [(⟨3⟩, .base [] .void)] false
    let g : TypeExpr Attr := .function [] int [] false
    let log := interned ({}, .empty .spelling) [.intern f, .skip, .intern g]
    (f, ⟨2⟩) ∈ log ∧ (g, ⟨2⟩) ∈ log ∧
      TypeKey.of .spelling f.canonical = TypeKey.of .spelling g.canonical := by
  intro int f g log
  have hf : (f, ⟨2⟩) ∈ log := by decide +kernel
  have hg : (g, ⟨2⟩) ∈ log := by decide +kernel
  exact ⟨hf, hg, ((interned_exact .spelling {} _).1 _ hf _ hg).1 rfl⟩

end DebugInfo.TypeTable
