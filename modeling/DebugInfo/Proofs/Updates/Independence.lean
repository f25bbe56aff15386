import Mathlib.Data.List.Pairwise
import Mathlib.Data.Set.Lattice
import Mathlib.Order.CompletePartialOrder
import DebugInfo.Proofs.Updates.Framing

/-!
# Updates that do not see each other

What an update writes is in one of a few slots of a descriptor: its size, its location, its
enumerators, its target, or what is known of one of its members.  Two updates of different slots, or
of different types, may be made in either order: the table and both answers are the same.  So it is
for a list of them, in whatever order they are made, and each answer is the one that the update
would have got alone.
-/

namespace DebugInfo

/-! ## Functions that do not see each other -/

/-- The two functions commute, and the second one does not hide whether the first one changes
anything. -/
def Apart {α : Type} (f g : α → α) : Prop :=
  ∀ a, f (g a) = g (f a) ∧ (f (g a) = g a ↔ f a = a)

section Apart

variable {α : Type} {f g : α → α}

/-- A function that changes nothing is apart from any other. -/
theorem apart_of_eq_id (h : f = id ∨ g = id) : Apart f g := by
  intro a
  rcases h with rfl | rfl
  · exact ⟨rfl, iff_of_true rfl rfl⟩
  · exact ⟨rfl, Iff.rfl⟩

/-- Changes of first matches, where no element is a match for both. -/
theorem apart_updateFirst {p q : α → Bool} (hpq : ∀ a, p a = true → q a = false)
    (hf : ∀ a, q (f a) = q a) (hg : ∀ a, p (g a) = p a) :
    Apart (updateFirst p f) (updateFirst q g) := by
  intro as
  induction as with
  | nil => exact ⟨rfl, Iff.rfl⟩
  | cons a as ih =>
    cases hp : p a with
    | true => simp [updateFirst, hp, hpq a hp, hf]
    | false =>
      obtain ⟨hcomm, hsame⟩ := ih
      cases hq : q a <;> simp [updateFirst, hp, hq, hg, hcomm, ← hsame]

end Apart

/-! ## Slots -/

/-- A part of a descriptor. -/
inductive Slot where
  | byteSize
  | loc
  | enumerators
  | target
  /-- What is known of the members of that name. -/
  | layout (member : Name)
deriving DecidableEq, Repr

namespace TypeUpdate

/-- The slots that an update writes into.  A new list of members comes with new layouts for all. -/
def slots : TypeUpdate → Set Slot
  | .compositeSize _ | .enumSize _ => {.byteSize}
  | .members _ => Set.range Slot.layout
  | .memberOffset name _ | .memberLayout name _ => {.layout name}
  | .enumerators _ => {.enumerators}
  | .target _ => {.target}
  | .loc _ => {.loc}

/-! What an update makes of each field of a descriptor of its kind. -/

def onSize : TypeUpdate → Option Nat → Option Nat
  | .compositeSize n | .enumSize n => fun _ => some n
  | _ => id

def onLoc : TypeUpdate → Option SourceLoc → Option SourceLoc
  | .loc l => (·.or (some l))
  | _ => id

def onEnumerators : TypeUpdate → List Enumerator → List Enumerator
  | .enumerators es => fun _ => es
  | _ => id

def onTarget : TypeUpdate → Option EntryId → Option EntryId
  | .target t => fun _ => some t
  | _ => id

def onDefined : TypeUpdate → Bool → Bool
  | .members _ => fun _ => true
  | _ => id

def onMembers : TypeUpdate → List Member → List Member
  | .members ms => fun _ => ms
  | .memberOffset name n => updateMember name ({ · with byteOffset := some n })
  | .memberLayout name l => updateMember name (·.withLayout l)
  | _ => id

variable {u u' : TypeUpdate} {name : Name}

/-- An update writes into each field of a struct or union on its own. -/
theorem write_composite (h : "composite" ∈ u.kinds) (c : Composite) :
    u.write (.composite c) = .composite { c with
      loc := u.onLoc c.loc
      byteSize := u.onSize c.byteSize
      isDefined := u.onDefined c.isDefined
      members := u.onMembers c.members } := by
  cases u <;> first | rfl | simp [kinds] at h

/-- An update writes into each field of an enum on its own. -/
theorem write_enumeration (h : "enum" ∈ u.kinds) (e : Enumeration) :
    u.write (.enumeration e) = .enumeration { e with
      loc := u.onLoc e.loc
      byteSize := u.onSize e.byteSize
      enumerators := u.onEnumerators e.enumerators } := by
  cases u <;> first | rfl | simp [kinds] at h

/-- An update writes into each field of a type name on its own. -/
theorem write_alias (a : Alias) :
    u.write (.alias a) = .alias { a with
      loc := u.onLoc a.loc
      target := u.onTarget a.target } := by
  cases u <;> rfl

/-- Only three kinds of descriptors can be updated. -/
theorem exists_of_mem_kinds {d : Descriptor} (h : d.kindName ∈ u.kinds) :
    (∃ c, d = .composite c) ∨ (∃ e, d = .enumeration e) ∨ ∃ a, d = .alias a := by
  obtain ⟨d', hd'⟩ := exists_result?_iff.2 h
  cases u <;> cases d <;> simp [result?] at hd' ⊢

/-! ## Updates of different slots -/

/-- An update without the slot of a field leaves this field alone, here and below. -/
theorem onLoc_eq_id (h : .loc ∉ u.slots) : u.onLoc = id := by
  cases u <;> first | rfl | simp [slots] at h

theorem onSize_eq_id (h : .byteSize ∉ u.slots) : u.onSize = id := by
  cases u <;> first | rfl | simp [slots] at h

theorem onEnumerators_eq_id (h : .enumerators ∉ u.slots) : u.onEnumerators = id := by
  cases u <;> first | rfl | simp [slots] at h

theorem onTarget_eq_id (h : .target ∉ u.slots) : u.onTarget = id := by
  cases u <;> first | rfl | simp [slots] at h

theorem onDefined_eq_id (h : .layout name ∉ u.slots) : u.onDefined = id := by
  cases u <;> first | rfl | simp [slots] at h

/-- An update leaves the members alone, has the slots of all, or has the slot of the one that it
changes. -/
theorem onMembers_cases (u : TypeUpdate) :
    u.onMembers = id ∨ u.slots = Set.range Slot.layout ∨
      ∃ name f, u.member? = some (name, f) ∧ u.onMembers = updateMember name f ∧
        .layout name ∈ u.slots := by
  cases u <;> simp [onMembers, slots, member?]

section Disjoint

variable (h : Disjoint u.slots u'.slots)
include h

/-- No slot belongs to two updates with disjoint slots. -/
theorem not_mem_or_not_mem (s : Slot) : s ∉ u.slots ∨ s ∉ u'.slots :=
  or_iff_not_imp_left.2 fun hs => Set.disjoint_left.1 h (not_not.1 hs)

/-- Updates with disjoint slots are apart on every field.  Where a field has one slot, one of the
two leaves it alone. -/
theorem apart_onLoc : Apart u.onLoc u'.onLoc :=
  apart_of_eq_id ((not_mem_or_not_mem h .loc).imp onLoc_eq_id onLoc_eq_id)

theorem apart_onSize : Apart u.onSize u'.onSize :=
  apart_of_eq_id ((not_mem_or_not_mem h .byteSize).imp onSize_eq_id onSize_eq_id)

theorem apart_onEnumerators : Apart u.onEnumerators u'.onEnumerators :=
  apart_of_eq_id
    ((not_mem_or_not_mem h .enumerators).imp onEnumerators_eq_id onEnumerators_eq_id)

theorem apart_onTarget : Apart u.onTarget u'.onTarget :=
  apart_of_eq_id ((not_mem_or_not_mem h .target).imp onTarget_eq_id onTarget_eq_id)

theorem apart_onDefined : Apart u.onDefined u'.onDefined :=
  apart_of_eq_id ((not_mem_or_not_mem h (.layout .empty)).imp onDefined_eq_id onDefined_eq_id)

/-- Both may write into the members, but not into members of the same name. -/
theorem apart_onMembers : Apart u.onMembers u'.onMembers := by
  have hmeet {name : Name} : .layout name ∈ u.slots → .layout name ∈ u'.slots → False :=
    fun hu hu' => Set.disjoint_left.1 h hu hu'
  have hlayout (name : Name) : Slot.layout name ∈ Set.range Slot.layout := ⟨name, rfl⟩
  rcases u.onMembers_cases with hid | hu | ⟨name, f, hu, hf, hname⟩
  · exact apart_of_eq_id (.inl hid)
  · rcases u'.onMembers_cases with hid | hu' | ⟨name', g, -, -, hname'⟩
    · exact apart_of_eq_id (.inr hid)
    · exact (hmeet (hu ▸ hlayout .empty) (hu' ▸ hlayout .empty)).elim
    · exact (hmeet (hu ▸ hlayout name') hname').elim
  · rcases u'.onMembers_cases with hid | hu' | ⟨name', g, hu', hg, hname'⟩
    · exact apart_of_eq_id (.inr hid)
    · exact (hmeet hname (hu' ▸ hlayout name)).elim
    · have hne : name ≠ name' := by
        rintro rfl
        exact hmeet hname hname'
      rw [hf, hg]
      refine apart_updateFirst (fun m hm => ?_) (fun m => ?_) fun m => ?_
      · simpa [beq_iff_eq.1 hm] using hne
      · rw [name_of_member? hu]
      · rw [name_of_member? hu']

end Disjoint

/-- Updates of different slots write into different fields, or into different members. -/
theorem apart_write (h : Disjoint u.slots u'.slots) : Apart u.write u'.write := by
  intro d
  by_cases hu : d.kindName ∈ u.kinds
  · by_cases hu' : d.kindName ∈ u'.kinds
    · rcases exists_of_mem_kinds hu with ⟨c, rfl⟩ | ⟨e, rfl⟩ | ⟨a, rfl⟩
      · obtain ⟨kind, tag, loc, byteSize, isDefined, members⟩ := c
        obtain ⟨hloc, hloc'⟩ := apart_onLoc h loc
        obtain ⟨hsize, hsize'⟩ := apart_onSize h byteSize
        obtain ⟨hdefined, hdefined'⟩ := apart_onDefined h isDefined
        obtain ⟨hmembers, hmembers'⟩ := apart_onMembers h members
        constructor
        · simp only [write_composite hu, write_composite hu', hloc, hsize, hdefined, hmembers]
        · simp only [write_composite hu, write_composite hu', Descriptor.composite.injEq,
            Composite.mk.injEq, hloc', hsize', hdefined', hmembers']
      · obtain ⟨tag, loc, byteSize, enumerators⟩ := e
        obtain ⟨hloc, hloc'⟩ := apart_onLoc h loc
        obtain ⟨hsize, hsize'⟩ := apart_onSize h byteSize
        obtain ⟨henumerators, henumerators'⟩ := apart_onEnumerators h enumerators
        constructor
        · simp only [write_enumeration hu, write_enumeration hu', hloc, hsize, henumerators]
        · simp only [write_enumeration hu, write_enumeration hu', Descriptor.enumeration.injEq,
            Enumeration.mk.injEq, hloc', hsize', henumerators']
      · obtain ⟨name, loc, target⟩ := a
        obtain ⟨hloc, hloc'⟩ := apart_onLoc h loc
        obtain ⟨htarget, htarget'⟩ := apart_onTarget h target
        constructor
        · simp only [write_alias, hloc, htarget]
        · simp only [write_alias, Descriptor.alias.injEq, Alias.mk.injEq, hloc', htarget']
    · have hsame (e : Descriptor) (he : e.kindName = d.kindName) : u'.write e = e :=
        write_of_not_mem (he ▸ hu')
      rw [hsame d rfl, hsame (u.write d) (kindName_write u d)]
      exact ⟨rfl, Iff.rfl⟩
  · have hsame (e : Descriptor) (he : e.kindName = d.kindName) : u.write e = e :=
      write_of_not_mem (he ▸ hu)
    rw [hsame d rfl, hsame (u'.write d) (kindName_write u' d)]
    exact ⟨rfl, iff_of_true rfl rfl⟩

end TypeUpdate

/-! ## Requests -/

namespace TypeTable

/-- An update that is asked for. -/
structure Request where
  id : EntryId
  update : TypeUpdate

namespace Request

/-- The requests are for different types or for different slots. -/
def Independent (a b : Request) : Prop := a.id ≠ b.id ∨ Disjoint a.update.slots b.update.slots

/-- The order of the two requests does not matter. -/
theorem Independent.symm {a b : Request} (h : Independent a b) : Independent b a :=
  h.imp Ne.symm fun hslots => hslots.symm

/-- The answer to a request for a type with that descriptor, if there is one. -/
def verdict (r : Request) : Option Descriptor → Except TableError Bool
  | none => .error (.unknownId .types r.id)
  | some d =>
    if d.kindName ∈ r.update.kinds then
      .ok (r.update.write d ≠ d)
    else
      .error (.unexpectedVariant .types r.id r.update.expected d.kindName)

end Request

variable {table : TypeTable} {a b r : Request} {rs rs' : List Request}

/-- The answer to a request, and the table after it.  Where it is refused, nothing changes. -/
def attempt (table : TypeTable) (r : Request) : Except TableError Bool × TypeTable :=
  match table.update r.id r.update with
  | .ok (changed, table') => (.ok changed, table')
  | .error e => (.error e, table)

/-- The answers to requests that are made one after the other, and the table at the end. -/
def attemptAll (table : TypeTable) :
    List Request → List (Except TableError Bool) × TypeTable
  | [] => ([], table)
  | r :: rs =>
      let (answer, table) := table.attempt r
      let (answers, table) := table.attemptAll rs
      (answer :: answers, table)

/-- The table with what the request writes, if there is such a type. -/
def fulfil (table : TypeTable) (r : Request) : TypeTable :=
  { table with descriptors := table.descriptors.modify r.id r.update.write }

/-- A request changes the descriptor under its id, and no other. -/
theorem get?_fulfil (table : TypeTable) (r : Request) (id : EntryId) :
    (table.fulfil r).get? id =
      if r.id = id then (table.get? r.id).map r.update.write else table.get? id := by
  simp only [fulfil, get?, Std.ExtTreeMap.getElem?_modify, Std.compare_eq_iff_eq]

/-- Tables with the same keys and the same descriptors are equal. -/
theorem ext_get? {table' : TypeTable} (hmode : table.mode = table'.mode)
    (hkeys : table.keys = table'.keys) (hget : ∀ id, table.get? id = table'.get? id) :
    table = table' := by
  have hdescriptors : table.descriptors = table'.descriptors := Std.ExtTreeMap.ext_getElem? hget
  cases table
  cases table'
  cases hmode
  cases hkeys
  cases hdescriptors
  rfl

/-- A request is answered from the descriptor of its type alone, and it writes or does nothing. -/
theorem attempt_eq (table : TypeTable) (r : Request) :
    table.attempt r = (r.verdict (table.get? r.id), table.fulfil r) := by
  have hsame (h : (table.get? r.id).map r.update.write = table.get? r.id) :
      table.fulfil r = table := by
    refine ext_get? rfl rfl fun id => ?_
    rw [get?_fulfil]
    split
    · next heq => rw [← heq, h]
    · rfl
  cases hd : table.get? r.id with
  | none =>
    have hupdate : table.update r.id r.update = .error (.unknownId .types r.id) :=
      update_eq_error_iff.2 (.inl ⟨hd, rfl⟩)
    rw [attempt, hupdate, hsame (by rw [hd]; rfl)]
    rfl
  | some d =>
    by_cases hkind : d.kindName ∈ r.update.kinds
    · have hupdate : table.update r.id r.update =
          .ok (r.update.write d ≠ d, table.replace r.id (r.update.write d)) :=
        update_eq_ok_iff.2 ⟨d, hd, hkind, rfl, rfl⟩
      have htable : table.replace r.id (r.update.write d) = table.fulfil r := by
        refine ext_get? rfl rfl fun id => ?_
        rw [get?_replace, get?_fulfil, hd, Option.map_some]
      rw [attempt, hupdate, htable, Request.verdict, if_pos hkind]
    · have hupdate : table.update r.id r.update =
          .error (.unexpectedVariant .types r.id r.update.expected d.kindName) :=
        update_eq_error_iff.2 (.inr ⟨d, hd, hkind, rfl⟩)
      have hwrite : (some d).map r.update.write = some d :=
        congrArg some (TypeUpdate.write_of_not_mem hkind)
      rw [attempt, hupdate, hsame (by rw [hd, hwrite]), Request.verdict, if_neg hkind]

/-! ## Independent requests -/

/-- Independent requests give the same table in either order. -/
theorem fulfil_comm (h : a.Independent b) (table : TypeTable) :
    (table.fulfil a).fulfil b = (table.fulfil b).fulfil a := by
  refine ext_get? rfl rfl fun id => ?_
  simp only [get?_fulfil]
  by_cases hab : a.id = b.id
  · have hcomm := TypeUpdate.apart_write (h.resolve_left (not_not.2 hab))
    rw [hab]
    split
    · rw [if_pos rfl, if_pos rfl, Option.map_map, Option.map_map]
      exact congrArg (Option.map · _) (funext fun d => (hcomm d).1.symm)
    · rfl
  · rw [if_neg hab, if_neg (Ne.symm hab)]
    by_cases ha : a.id = id
    · rw [if_pos ha, if_neg fun hb => hab (ha.trans hb.symm), if_pos ha]
    · rw [if_neg ha, if_neg ha]

/-- The verdict on a request does not depend on an independent one made before. -/
theorem verdict_fulfil (h : a.Independent b) (table : TypeTable) :
    a.verdict ((table.fulfil b).get? a.id) = a.verdict (table.get? a.id) := by
  rw [get?_fulfil]
  split
  · next hid =>
    have hsame := TypeUpdate.apart_write (h.resolve_left (not_not.2 hid.symm))
    rw [hid]
    cases table.get? a.id with
    | none => rfl
    | some d =>
      simp only [Option.map_some, Request.verdict, TypeUpdate.kindName_write, ne_eq, (hsame d).2]
  · rfl

/-- Each request gets the answer that it would have got alone. -/
theorem attemptAll_eq (h : rs.Pairwise Request.Independent) (table : TypeTable) :
    table.attemptAll rs =
      (rs.map fun r => r.verdict (table.get? r.id), rs.foldl fulfil table) := by
  induction rs generalizing table with
  | nil => rfl
  | cons r rs ih =>
    obtain ⟨hr, hrs⟩ := List.pairwise_cons.1 h
    have hanswers : rs.map (fun r' => r'.verdict ((table.fulfil r).get? r'.id)) =
        rs.map fun r' => r'.verdict (table.get? r'.id) :=
      List.map_congr_left fun r' hr' => verdict_fulfil (hr r' hr').symm table
    rw [attemptAll, attempt_eq]
    dsimp only
    rw [ih hrs, hanswers]
    rfl

/-- In whatever order independent requests are made, the same is written. -/
theorem foldl_fulfil_perm (h : rs.Pairwise Request.Independent) (hperm : rs.Perm rs')
    (table : TypeTable) : rs.foldl fulfil table = rs'.foldl fulfil table := by
  refine hperm.foldl_eq' (fun a ha b hb table => ?_) table
  by_cases hab : a = b
  · rw [hab]
  · have : Std.Symm Request.Independent := ⟨fun _ _ => .symm⟩
    exact fulfil_comm (h.forall ha hb hab) table

/-- Two requests for different types or different slots may be made in either order: both get the
same answer, and the table at the end is the same.  So it is for any number of requests of which
any two are independent, in any order. -/
theorem independent_updates_commute (table : TypeTable) :
    (∀ a b : Request, a.Independent b → ∃ answerA answerB table',
      table.attemptAll [a, b] = ([answerA, answerB], table') ∧
      table.attemptAll [b, a] = ([answerB, answerA], table')) ∧
    ∀ rs rs' : List Request, rs.Pairwise Request.Independent → rs.Perm rs' →
      ∃ table', table.attemptAll rs = (rs.map fun r => (table.attempt r).1, table') ∧
        table.attemptAll rs' = (rs'.map fun r => (table.attempt r).1, table') := by
  have hall (rs rs' : List Request) (hrs : rs.Pairwise Request.Independent) (hperm : rs.Perm rs') :
      ∃ table', table.attemptAll rs = (rs.map fun r => (table.attempt r).1, table') ∧
        table.attemptAll rs' = (rs'.map fun r => (table.attempt r).1, table') := by
    have hanswer (r : Request) : (table.attempt r).1 = r.verdict (table.get? r.id) := by
      rw [attempt_eq]
    simp only [hanswer]
    refine ⟨rs.foldl fulfil table, attemptAll_eq hrs table, ?_⟩
    rw [foldl_fulfil_perm hrs hperm]
    exact attemptAll_eq (hperm.pairwise hrs Request.Independent.symm) table
  refine ⟨fun a b hab => ?_, hall⟩
  obtain ⟨table', hab, hba⟩ := hall [a, b] [b, a] (List.pairwise_pair.2 hab) (.swap b a [])
  exact ⟨_, _, table', hab, hba⟩

/-- Of two members laid out in either order, of which one has its offset already, the other one is
the one that changes, and an enumeration that a composite does not have is refused both times. -/
theorem independent_updates_commute_members :
    let m : Member := { name := ⟨2⟩, type := ⟨0⟩, byteOffset := some 0 }
    let m' : Member := { name := ⟨3⟩, type := ⟨0⟩ }
    let table := (empty .spelling).replace ⟨5⟩
      (.composite { kind := .struct, tag := ⟨1⟩, members := [m, m'] })
    let rs : List Request := [⟨⟨5⟩, .memberOffset ⟨2⟩ 0⟩, ⟨⟨5⟩, .memberOffset ⟨3⟩ 4⟩,
      ⟨⟨5⟩, .enumerators []⟩, ⟨⟨6⟩, .memberOffset ⟨3⟩ 4⟩]
    let refused : TableError := .unexpectedVariant .types ⟨5⟩ "enum" "composite"
    let unknown : TableError := .unknownId .types ⟨6⟩
    ∃ table', rs.Pairwise Request.Independent ∧
      table.attemptAll rs = ([.ok false, .ok true, .error refused, .error unknown], table') ∧
      table.attemptAll rs.reverse =
        ([.error unknown, .error refused, .ok true, .ok false], table') := by
  intro m m' table rs refused unknown
  have hrs : rs.Pairwise Request.Independent := by
    simp [rs, Request.Independent, TypeUpdate.slots]
  obtain ⟨table', hforth, hback⟩ :=
    (independent_updates_commute table).2 rs rs.reverse hrs rs.reverse_perm.symm
  have hd : table.get? ⟨5⟩ = some (.composite { kind := .struct, tag := ⟨1⟩, members := [m, m'] }) :=
    (get?_replace _ _ _ _).trans (if_pos rfl)
  have hnone : table.get? ⟨6⟩ = none := by
    rw [get?_replace, if_neg (by decide)]
    exact Std.ExtTreeMap.getElem?_empty
  have hanswers : rs.map (fun r => (table.attempt r).1) =
      [.ok false, .ok true, .error refused, .error unknown] := by
    simp only [rs, List.map_cons, List.map_nil, attempt_eq, hd, hnone]
    rfl
  refine ⟨table', hrs, hforth.trans ?_, hback.trans ?_⟩
  · rw [hanswers]
  · rw [List.map_reverse, hanswers]
    rfl

end TypeTable

end DebugInfo
