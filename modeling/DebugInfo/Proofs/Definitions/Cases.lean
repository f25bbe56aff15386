import DebugInfo.Definitions

/-!
# What an operation on definitions does

For each operation that can succeed in more than one way, the ways in which it does, with the table
that comes out.  Everything that is kept by the operations follows from these cases; nothing else
looks into them.
-/

namespace DebugInfo.Definitions

variable {g g' : Definitions} {ids ids' : IdSupply} {id : EntryId}

/-! ## Entries -/

@[simp] theorem get?_empty (id : EntryId) : (∅ : Definitions).get? id = none :=
  Std.ExtTreeMap.getElem?_empty

theorem get?_put (g : Definitions) (id id' : EntryId) (d : Definition) :
    (g.put id d).get? id' = if id = id' then some d else g.get? id' := by
  simp only [put, get?, Std.ExtTreeMap.getElem?_insert, Std.compare_eq_iff_eq]

@[simp] theorem get?_put_self (g : Definitions) (id : EntryId) (d : Definition) :
    (g.put id d).get? id = some d := by
  rw [get?_put, if_pos rfl]

theorem get?_put_of_ne {id' : EntryId} (h : id ≠ id') (g : Definitions) (d : Definition) :
    (g.put id d).get? id' = g.get? id' := by
  rw [get?_put, if_neg h]

/-- Storing what is stored already. -/
theorem put_of_get? {d : Definition} (hd : g.get? id = some d) : g.put id d = g := by
  rw [put, insert_of_getElem? hd]

theorem map_map {α β γ : Type} (r : Except TableError α) (f : α → β) (g : β → γ) :
    (r.map f).map g = r.map (g ∘ f) := by
  cases r <;> rfl

/-- What is made of a result is there if and only if the result is. -/
theorem map_eq_ok_iff {α β : Type} {e : Except TableError α} {f : α → β} {b : β} :
    e.map f = .ok b ↔ ∃ a, e = .ok a ∧ f a = b := by
  cases e <;> simp [Except.map]

/-- A function is found at an id if and only if the entry there is one. -/
theorem functionAt_eq_ok_iff {f : Function} :
    g.functionAt id = .ok f ↔ g.get? id = some (.function f) := by
  unfold functionAt
  split <;> simp_all

/-- A variable is found at an id if and only if the entry there is one. -/
theorem variableAt_eq_ok_iff {v : Variable} :
    g.variableAt id = .ok v ↔ g.get? id = some (.variable v) := by
  unfold variableAt
  split <;> simp_all

/-- A change of the function at an id succeeds if there is a function. -/
theorem map_functionAt_eq_ok_iff {α : Type} {k : Function → α} {a : α} :
    (g.functionAt id).map k = .ok a ↔ ∃ f, g.get? id = some (.function f) ∧ k f = a := by
  simp only [← functionAt_eq_ok_iff, map_eq_ok_iff]

theorem map_variableAt_eq_ok_iff {α : Type} {k : Variable → α} {a : α} :
    (g.variableAt id).map k = .ok a ↔ ∃ v, g.get? id = some (.variable v) ∧ k v = a := by
  simp only [← variableAt_eq_ok_iff, map_eq_ok_iff]

/-! ## Indices -/

@[simp] theorem idByStamp?_empty (stamp : Stamp) : (∅ : Definitions).idByStamp? stamp = none :=
  Std.ExtTreeMap.getElem?_empty

@[simp] theorem idByName?_empty (name : Name) : (∅ : Definitions).idByName? name = none :=
  Std.ExtTreeMap.getElem?_empty

@[simp] theorem idBySymbol?_empty (symbol : Symbol) :
    (∅ : Definitions).idBySymbol? symbol = none :=
  Std.ExtTreeMap.getElem?_empty

/-- Let a stamp lead to a definition. -/
def addStamp (g : Definitions) (stamp : Stamp) (id : EntryId) : Definitions :=
  { g with byStamp := g.byStamp.insert stamp id }

/-- Let a name lead to a function. -/
def addName (g : Definitions) (name : Name) (id : EntryId) : Definitions :=
  { g with byName := g.byName.insert name id }

def addSymbol (g : Definitions) (symbol : Symbol) (id : EntryId) : Definitions :=
  { g with bySymbol := g.bySymbol.insert symbol id }

@[simp] theorem get?_addStamp (g : Definitions) (stamp : Stamp) (id : EntryId) :
    (g.addStamp stamp id).get? = g.get? := rfl

@[simp] theorem get?_addName (g : Definitions) (name : Name) (id : EntryId) :
    (g.addName name id).get? = g.get? := rfl

@[simp] theorem get?_addSymbol (g : Definitions) (symbol : Symbol) (id : EntryId) :
    (g.addSymbol symbol id).get? = g.get? := rfl

@[simp] theorem idByStamp?_put (g : Definitions) (id : EntryId) (d : Definition) :
    (g.put id d).idByStamp? = g.idByStamp? := rfl

@[simp] theorem idByStamp?_addName (g : Definitions) (name : Name) (id : EntryId) :
    (g.addName name id).idByStamp? = g.idByStamp? := rfl

@[simp] theorem idByStamp?_addSymbol (g : Definitions) (symbol : Symbol) (id : EntryId) :
    (g.addSymbol symbol id).idByStamp? = g.idByStamp? := rfl

@[simp] theorem idByName?_put (g : Definitions) (id : EntryId) (d : Definition) :
    (g.put id d).idByName? = g.idByName? := rfl

@[simp] theorem idByName?_addStamp (g : Definitions) (stamp : Stamp) (id : EntryId) :
    (g.addStamp stamp id).idByName? = g.idByName? := rfl

@[simp] theorem idByName?_addSymbol (g : Definitions) (symbol : Symbol) (id : EntryId) :
    (g.addSymbol symbol id).idByName? = g.idByName? := rfl

theorem idByStamp?_addStamp (g : Definitions) (stamp stamp' : Stamp) (id : EntryId) :
    (g.addStamp stamp id).idByStamp? stamp' = if stamp = stamp' then some id
      else g.idByStamp? stamp' := by
  simp only [addStamp, idByStamp?, Std.ExtTreeMap.getElem?_insert, Std.compare_eq_iff_eq]

theorem idByName?_addName (g : Definitions) (name name' : Name) (id : EntryId) :
    (g.addName name id).idByName? name' = if name = name' then some id
      else g.idByName? name' := by
  simp only [addName, idByName?, Std.ExtTreeMap.getElem?_insert, Std.compare_eq_iff_eq]

theorem idBySymbol?_addSymbol (g : Definitions) (symbol symbol' : Symbol) (id : EntryId) :
    (g.addSymbol symbol id).idBySymbol? symbol' = if symbol = symbol' then some id
      else g.idBySymbol? symbol' := by
  simp only [addSymbol, idBySymbol?, Std.ExtTreeMap.getElem?_insert, Std.compare_eq_iff_eq]

/-- A function is recorded by three changes: of the entry, of the stamps and of the names. -/
theorem record_eq (g : Definitions) (id : EntryId) (s : Signature) (f : Function) :
    g.record id s f = ((g.put id (.function f)).addStamp s.stamp id).addName s.name id := rfl

/-- The stamps of an id are those that lead to it. -/
theorem mem_stamps {stamp : Stamp} : stamp ∈ g.stamps id ↔ g.idByStamp? stamp = some id := by
  simp [stamps, idByStamp?, Std.ExtTreeMap.mem_toList_iff_getElem?_eq_some]

/-- A function is found under its stamp, or under its name if the stamp is not known. -/
theorem idOf?_eq_some_iff {s : Signature} :
    g.idOf? s = some id ↔ g.idByStamp? s.stamp = some id ∨
      g.idByStamp? s.stamp = none ∧ g.idByName? s.name = some id := by
  cases h : g.idByStamp? s.stamp <;> simp [idOf?, h]

/-- The stamp of a known function leads to it or nowhere. -/
theorem idByStamp?_of_idOf?_eq_some {s : Signature} (h : g.idOf? s = some id) :
    g.idByStamp? s.stamp = none ∨ g.idByStamp? s.stamp = some id := by
  rcases idOf?_eq_some_iff.1 h with hs | ⟨hs, -⟩
  · exact .inr hs
  · exact .inl hs

/-- A function is new if neither its stamp nor its name leads anywhere. -/
theorem idOf?_eq_none_iff {s : Signature} :
    g.idOf? s = none ↔ g.idByStamp? s.stamp = none ∧ g.idByName? s.name = none := by
  simp [idOf?]

/-! ## Declarations -/

/-- A variable is new under its stamp, or it is found there and may stop being tentative. -/
theorem declareVariable_cases {stamp : Stamp} {v : Variable} {defining : Bool}
    (h : g.declareVariable ids stamp v defining = .ok (id, ids', g')) :
    (g.idByStamp? stamp = none ∧ id = ids.fresh.1 ∧ ids' = ids.fresh.2 ∧
      g' = (g.put id (.variable v)).addStamp stamp id) ∨
    (g.idByStamp? stamp = some id ∧ ids' = ids ∧ ∃ old, g.get? id = some (.variable old) ∧
      g' = g.put id (.variable { old with isTentative := old.isTentative && !defining })) := by
  unfold declareVariable at h
  split at h
  · next hs =>
    cases h
    exact .inl ⟨hs, rfl, rfl, rfl⟩
  · next hs =>
    obtain ⟨old, hold, heq⟩ := map_variableAt_eq_ok_iff.1 h
    cases heq
    exact .inr ⟨hs, rfl, old, hold, rfl⟩

/-- A stamp that leads to a function already leads there after it is recorded once more. -/
theorem insertIfNew_eq_insert {s : Signature} (h : g.idOf? s = some id) :
    g.byStamp.insertIfNew s.stamp id = g.byStamp.insert s.stamp id := by
  refine Std.ExtTreeMap.ext_getElem? fun stamp => ?_
  rw [Std.ExtTreeMap.getElem?_insertIfNew, Std.ExtTreeMap.getElem?_insert]
  rcases idOf?_eq_some_iff.1 h with hs | ⟨hs, -⟩
  · by_cases heq : s.stamp = stamp
    · subst heq
      simpa [idByStamp?] using fun _ => hs
    · simp [heq]
  · have hnew : s.stamp ∉ g.byStamp := by simpa [idByStamp?] using hs
    simp [hnew]

/-- A prototype is new, or its stamp now leads to the function that was found. -/
theorem declarePrototype_cases {s : Signature}
    (h : g.declarePrototype ids s = .ok (id, ids', g')) :
    (g.idOf? s = none ∧ id = ids.fresh.1 ∧ ids' = ids.fresh.2 ∧ g' = g.record id s s.declared) ∨
    (g.idOf? s = some id ∧ ids' = ids ∧ (∃ f, g.get? id = some (.function f)) ∧
      g' = g.addStamp s.stamp id) := by
  unfold declarePrototype at h
  split at h
  · next hs =>
    obtain ⟨f, hf, heq⟩ := map_functionAt_eq_ok_iff.1 h
    cases heq
    refine .inr ⟨hs, rfl, ⟨f, hf⟩, ?_⟩
    rw [insertIfNew_eq_insert hs, addStamp]
  · next hs =>
    cases h
    exact .inl ⟨hs, rfl, rfl, rfl⟩

/-- The function that a definition with a body leaves behind. -/
def redefined (s : Signature) (params : List Parameter) (old : Function) : Function :=
  { s.defined params with symbol := old.symbol, code := old.code, rootScope := old.rootScope }

/-- A definition is new, or it replaces the function that was found and keeps what was bound to it.
-/
theorem defineFunction_cases {s : Signature} {params : List Parameter}
    (h : g.defineFunction ids s params = .ok (id, ids', g')) :
    (g.idOf? s = none ∧ id = ids.fresh.1 ∧ ids' = ids.fresh.2 ∧
      g' = g.record id s (s.defined params)) ∨
    (g.idOf? s = some id ∧ ids' = ids ∧ ∃ old, g.get? id = some (.function old) ∧
      g' = g.record id s (redefined s params old)) := by
  unfold defineFunction at h
  split at h
  · next hs =>
    obtain ⟨old, hold, heq⟩ := map_functionAt_eq_ok_iff.1 h
    cases heq
    exact .inr ⟨hs, rfl, old, hold, rfl⟩
  · next hs =>
    cases h
    exact .inl ⟨hs, rfl, rfl, rfl⟩

/-! ## Bindings -/

/-- A symbol is bound if and only if the stamp leads to an entry.  The entry gets the symbol, and
the symbol leads to the entry. -/
theorem bindSymbol_eq_some_iff {stamp : Stamp} {symbol : Symbol} :
    g.bindSymbol stamp symbol = some (id, g') ↔ ∃ d, g.idByStamp? stamp = some id ∧
      g.get? id = some d ∧ g' = (g.put id (d.withSymbol symbol)).addSymbol symbol id := by
  simp only [bindSymbol, bind, Option.bind_eq_some_iff, pure, Option.some.injEq, Prod.mk.injEq]
  constructor
  · rintro ⟨id', hid, d, hd, rfl, rfl⟩
    exact ⟨d, hid, hd, rfl⟩
  · rintro ⟨d, hid, hd, rfl⟩
    exact ⟨id, hid, d, hd, rfl, rfl⟩

/-- Where the code of a function is says nothing about anything else. -/
theorem bindCode_cases {symbol : Symbol} {code : CodeRange} {b : Bool}
    (h : g.bindCode symbol code = .ok (b, g')) :
    g' = g ∨ ∃ id f, g.get? id = some (.function f) ∧
      g' = g.put id (.function { f with code := some code }) := by
  unfold bindCode at h
  split at h
  · cases h
    exact .inl rfl
  · next id _ =>
    obtain ⟨f, hf, heq⟩ := map_functionAt_eq_ok_iff.1 h
    cases heq
    exact .inr ⟨id, f, hf, rfl⟩

/-- Nothing happens, or the first parameter of that stamp gets the symbol. -/
theorem bindParameter_cases {function param : Stamp} {symbol : Symbol} {b : Bool}
    (h : g.bindParameter function param symbol = .ok (b, g')) :
    g' = g ∨ ∃ id f, g.get? id = some (.function f) ∧
      g' = g.put id (.function { f with
        params := updateFirst (·.stamp == param) (fun p => { p with symbol := some symbol })
          f.params }) := by
  unfold bindParameter at h
  split at h
  · cases h
    exact .inl rfl
  · next id _ =>
    obtain ⟨f, hf, heq⟩ := map_functionAt_eq_ok_iff.1 h
    split at heq <;> cases heq
    · exact .inr ⟨id, f, hf, rfl⟩
    · exact .inl rfl

/-- A root scope is set if and only if there is a function at the id. -/
theorem setRootScope_eq_ok_iff {scope : EntryId} :
    g.setRootScope id scope = .ok g' ↔ ∃ f, g.get? id = some (.function f) ∧
      g' = g.put id (.function { f with rootScope := some scope }) := by
  rw [setRootScope, map_functionAt_eq_ok_iff]
  exact exists_congr fun f => and_congr_right fun _ => eq_comm

end DebugInfo.Definitions
