import DebugInfo.Proofs.Definitions.Cases

/-!
# Indices of definitions

A definition table is `Grounded` in a supply of ids if its ids come from the supply and whatever an
index leads to is there, and is a function if the index is that of names.

What an operation does is made of few changes: an entry is added under a fresh id or replaced by
another of its kind, and a key comes to lead to an entry.  Each of these keeps a table grounded, and
so does each operation.
-/

namespace DebugInfo.Definitions

structure Grounded (ids : IdSupply) (g : Definitions) : Prop where
  below : ∀ id d, g.get? id = some d → id.raw < ids.allocated
  byStamp : ∀ stamp id, g.idByStamp? stamp = some id → ∃ d, g.get? id = some d
  bySymbol : ∀ symbol id, g.idBySymbol? symbol = some id → ∃ d, g.get? id = some d
  byName : ∀ name id, g.idByName? name = some id → ∃ f, g.get? id = some (.function f)

theorem grounded_empty (ids : IdSupply) : Grounded ids ∅ where
  below _ _ h := by simp at h
  byStamp _ _ h := by simp at h
  bySymbol _ _ h := by simp at h
  byName _ _ h := by simp at h

/-- Every stamp that leads somewhere still leads there. -/
def KeepsStamps (g g' : Definitions) : Prop :=
  ∀ stamp id, g.idByStamp? stamp = some id → g'.idByStamp? stamp = some id

theorem KeepsStamps.refl (g : Definitions) : KeepsStamps g g := fun _ _ h => h

theorem KeepsStamps.trans {g₁ g₂ g₃ : Definitions} (h : KeepsStamps g₁ g₂)
    (h' : KeepsStamps g₂ g₃) : KeepsStamps g₁ g₃ :=
  fun stamp id hs => h' stamp id (h stamp id hs)

variable {g g' : Definitions} {ids ids' : IdSupply} {id : EntryId} {d d' : Definition}

/-- A stamp that led nowhere, or to this id, may lead to it. -/
theorem keepsStamps_addStamp {stamp : Stamp}
    (h : g.idByStamp? stamp = none ∨ g.idByStamp? stamp = some id) :
    KeepsStamps g (g.addStamp stamp id) := by
  intro stamp' id' hs
  rw [idByStamp?_addStamp]
  split
  · next heq =>
    subst heq
    rcases h with h | h
    · rw [h] at hs
      cases hs
    · rw [← hs, h]
  · exact hs

theorem keepsStamps_of_idOf?_eq_none {s : Signature} (h : g.idOf? s = none) :
    KeepsStamps g (g.addStamp s.stamp id) :=
  keepsStamps_addStamp (.inl (idOf?_eq_none_iff.1 h).1)

/-- A declaration of a known function leaves its stamp where it was, if it had led anywhere. -/
theorem keepsStamps_of_idOf?_eq_some {s : Signature} (h : g.idOf? s = some id) :
    KeepsStamps g (g.addStamp s.stamp id) :=
  keepsStamps_addStamp (idByStamp?_of_idOf?_eq_some h)

namespace Grounded

variable (h : Grounded ids g)
include h

/-! ## Single changes -/

/-- Ids that are handed out later do no harm. -/
theorem mono (hids : ids.allocated ≤ ids'.allocated) : Grounded ids' g :=
  ⟨fun id d hd => Nat.lt_of_lt_of_le (h.below id d hd) hids, h.byStamp, h.bySymbol, h.byName⟩

/-- An id that is in use is not the next one. -/
theorem ne_fresh (hd : g.get? id = some d) : ids.fresh.1 ≠ id := by
  rintro rfl
  exact Nat.lt_irrefl _ (h.below _ d hd)

/-- Nothing is said about the new entry: no index leads to it yet. -/
theorem put_fresh (d : Definition) : Grounded ids.fresh.2 (g.put ids.fresh.1 d) := by
  have hkept {id : EntryId} {e : Definition} (he : g.get? id = some e) :
      (g.put ids.fresh.1 d).get? id = some e := by
    rw [get?_put_of_ne (h.ne_fresh he), he]
  constructor
  · intro id e he
    rw [get?_put] at he
    split at he
    · next heq =>
      rw [← heq]
      exact Nat.lt_succ_self _
    · exact Nat.lt_succ_of_lt (h.below id e he)
  · intro stamp id hs
    obtain ⟨e, he⟩ := h.byStamp stamp id hs
    exact ⟨e, hkept he⟩
  · intro symbol id hs
    obtain ⟨e, he⟩ := h.bySymbol symbol id hs
    exact ⟨e, hkept he⟩
  · intro name id hs
    obtain ⟨f, hf⟩ := h.byName name id hs
    exact ⟨f, hkept hf⟩

/-- An entry is replaced by one of its kind. -/
theorem put (hd : g.get? id = some d) (hkind : d'.isFunction = d.isFunction) :
    Grounded ids (g.put id d') := by
  have hkept {id' : EntryId} {e : Definition} (he : g.get? id' = some e) :
      ∃ e', (g.put id d').get? id' = some e' ∧ e'.isFunction = e.isFunction := by
    rw [get?_put]
    split
    · next heq =>
      rw [← heq, hd] at he
      cases he
      exact ⟨d', rfl, hkind⟩
    · exact ⟨e, he, rfl⟩
  constructor
  · intro id' e he
    rw [get?_put] at he
    split at he
    · next heq => exact h.below id' d (heq ▸ hd)
    · exact h.below id' e he
  · intro stamp id' hs
    obtain ⟨e, he⟩ := h.byStamp stamp id' hs
    obtain ⟨e', he', -⟩ := hkept he
    exact ⟨e', he'⟩
  · intro symbol id' hs
    obtain ⟨e, he⟩ := h.bySymbol symbol id' hs
    obtain ⟨e', he', -⟩ := hkept he
    exact ⟨e', he'⟩
  · intro name id' hs
    obtain ⟨f, hf⟩ := h.byName name id' hs
    obtain ⟨e', he', hfun⟩ := hkept hf
    rcases e' with v | f'
    · cases hfun
    · exact ⟨f', he'⟩

/-- A stamp may lead to any entry. -/
theorem addStamp (hd : g.get? id = some d) (stamp : Stamp) : Grounded ids (g.addStamp stamp id) where
  below := h.below
  byStamp stamp' id' hs := by
    rw [idByStamp?_addStamp] at hs
    split at hs
    · cases hs
      exact ⟨d, hd⟩
    · exact h.byStamp stamp' id' hs
  bySymbol := h.bySymbol
  byName := h.byName

/-- A name may lead to any function. -/
theorem addName {f : Function} (hf : g.get? id = some (.function f)) (name : Name) :
    Grounded ids (g.addName name id) where
  below := h.below
  byStamp := h.byStamp
  bySymbol := h.bySymbol
  byName name' id' hs := by
    rw [idByName?_addName] at hs
    split at hs
    · cases hs
      exact ⟨f, hf⟩
    · exact h.byName name' id' hs

theorem addSymbol (hd : g.get? id = some d) (symbol : Symbol) :
    Grounded ids (g.addSymbol symbol id) where
  below := h.below
  byStamp := h.byStamp
  bySymbol symbol' id' hs := by
    rw [idBySymbol?_addSymbol] at hs
    split at hs
    · cases hs
      exact ⟨d, hd⟩
    · exact h.bySymbol symbol' id' hs
  byName := h.byName

/-- A function may be recorded under the next id. -/
theorem record_fresh (s : Signature) (f : Function) :
    Grounded ids.fresh.2 (g.record ids.fresh.1 s f) := by
  rw [record_eq]
  exact ((h.put_fresh _).addStamp (get?_put_self ..) s.stamp).addName (get?_put_self ..) s.name

/-- A function may be recorded in the place of another one. -/
theorem record {old : Function} (hold : g.get? id = some (.function old)) (s : Signature)
    (f : Function) : Grounded ids (g.record id s f) := by
  rw [record_eq]
  have hput : Grounded ids (g.put id (.function f)) := h.put hold rfl
  exact (hput.addStamp (get?_put_self ..) s.stamp).addName (get?_put_self ..) s.name

/-! ## Operations -/

/-- A declaration of a variable leaves no index that leads nowhere, and no stamp is led elsewhere.
-/
theorem declareVariable {stamp : Stamp} {v : Variable} {defining : Bool}
    (ho : g.declareVariable ids stamp v defining = .ok (id, ids', g')) :
    Grounded ids' g' ∧ KeepsStamps g g' := by
  rcases declareVariable_cases ho with ⟨hs, rfl, rfl, rfl⟩ | ⟨-, rfl, old, hold, rfl⟩
  · exact ⟨(h.put_fresh _).addStamp (get?_put_self ..) stamp, keepsStamps_addStamp (.inl hs)⟩
  · exact ⟨h.put hold rfl, .refl g⟩

/-- The same for a prototype. -/
theorem declarePrototype {s : Signature} (ho : g.declarePrototype ids s = .ok (id, ids', g')) :
    Grounded ids' g' ∧ KeepsStamps g g' := by
  rcases declarePrototype_cases ho with ⟨hs, rfl, rfl, rfl⟩ | ⟨hs, rfl, ⟨f, hf⟩, rfl⟩
  · exact ⟨h.record_fresh s _, keepsStamps_of_idOf?_eq_none hs⟩
  · exact ⟨h.addStamp hf s.stamp, keepsStamps_of_idOf?_eq_some hs⟩

/-- The same for a definition. -/
theorem defineFunction {s : Signature} {params : List Parameter}
    (ho : g.defineFunction ids s params = .ok (id, ids', g')) :
    Grounded ids' g' ∧ KeepsStamps g g' := by
  rcases defineFunction_cases ho with ⟨hs, rfl, rfl, rfl⟩ | ⟨hs, rfl, old, hold, rfl⟩
  · exact ⟨h.record_fresh s _, keepsStamps_of_idOf?_eq_none hs⟩
  · exact ⟨h.record hold s _, keepsStamps_of_idOf?_eq_some hs⟩

/-- A definition gets a symbol, which leads to it. -/
theorem withSymbol (hd : g.get? id = some d) (symbol : Symbol) :
    Grounded ids ((g.put id (d.withSymbol symbol)).addSymbol symbol id) :=
  (h.put hd (Definition.isFunction_withSymbol symbol d)).addSymbol (get?_put_self ..) symbol

theorem markPrinted (name : Name) : Grounded ids (g.markPrinted name) :=
  ⟨h.below, h.byStamp, h.bySymbol, h.byName⟩

end Grounded

end DebugInfo.Definitions
