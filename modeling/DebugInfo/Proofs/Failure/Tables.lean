import DebugInfo.Proofs.Definitions.Grounded
import DebugInfo.Proofs.Locals.Cases

/-!
# Where tables refuse

An operation on a table fails only where it looks at an entry that it has found and that is of
another kind.  What it finds depends on the key alone, so nothing else decides whether it fails.
-/

namespace DebugInfo

namespace Definitions

variable {g : Definitions} {ids : IdSupply} {id : EntryId} {e : TableError}

theorem map_eq_error_iff {α β : Type} {r : Except TableError α} {f : α → β} :
    r.map f = .error e ↔ r = .error e := by
  cases r <;> simp [Except.map]

/-! ## Entries of another kind -/

/-- There is a function where a variable is expected. -/
def MistakesFunction (g : Definitions) (id? : Option EntryId) (e : TableError) : Prop :=
  ∃ id f, id? = some id ∧ g.get? id = some (.function f) ∧
    e = .unexpectedVariant .definitions id "global variable" "function"

/-- There is a variable where a function is expected. -/
def MistakesVariable (g : Definitions) (id? : Option EntryId) (e : TableError) : Prop :=
  ∃ id v, id? = some id ∧ g.get? id = some (.variable v) ∧
    e = .unexpectedVariant .definitions id "function" "global variable"

/-- Where there is an entry, it is refused as a variable if and only if it is a function. -/
theorem variableAt_eq_error_iff {d : Definition} (hd : g.get? id = some d) :
    g.variableAt id = .error e ↔ g.MistakesFunction (some id) e := by
  unfold variableAt MistakesFunction
  rw [hd]
  obtain v | f := d
  · refine iff_of_false (fun h => nomatch h) ?_
    rintro ⟨_, f, ⟨⟩, hf, -⟩
    cases hd.symm.trans hf
  · constructor
    · rintro ⟨⟩
      exact ⟨id, f, rfl, hd, rfl⟩
    · rintro ⟨_, f', ⟨⟩, -, rfl⟩
      rfl

/-- Where there is an entry, it is refused as a function if and only if it is a variable. -/
theorem functionAt_eq_error_iff {d : Definition} (hd : g.get? id = some d) :
    g.functionAt id = .error e ↔ g.MistakesVariable (some id) e := by
  unfold functionAt MistakesVariable
  rw [hd]
  obtain v | f := d
  · constructor
    · rintro ⟨⟩
      exact ⟨id, v, rfl, hd, rfl⟩
    · rintro ⟨_, v', ⟨⟩, -, rfl⟩
      rfl
  · refine iff_of_false (fun h => nomatch h) ?_
    rintro ⟨_, v, ⟨⟩, hv, -⟩
    cases hd.symm.trans hv

/-- An operation that looks for a function under a key which leads to an entry, if anywhere. -/
theorem mistakesVariable_iff {id? : Option EntryId}
    (hid : ∀ id, id? = some id → ∃ d, g.get? id = some d) :
    (∃ id, id? = some id ∧ g.functionAt id = .error e) ↔ g.MistakesVariable id? e := by
  cases id? with
  | none =>
    refine iff_of_false (fun ⟨_, h, _⟩ => nomatch h) ?_
    rintro ⟨_, _, ⟨⟩, _⟩
  | some id =>
    obtain ⟨d, hd⟩ := hid id rfl
    rw [← functionAt_eq_error_iff hd]
    simp

/-- An operation that looks for a variable under a key which leads to an entry, if anywhere. -/
theorem mistakesFunction_iff {id? : Option EntryId}
    (hid : ∀ id, id? = some id → ∃ d, g.get? id = some d) :
    (∃ id, id? = some id ∧ g.variableAt id = .error e) ↔ g.MistakesFunction id? e := by
  cases id? with
  | none =>
    refine iff_of_false (fun ⟨_, h, _⟩ => nomatch h) ?_
    rintro ⟨_, _, ⟨⟩, _⟩
  | some id =>
    obtain ⟨d, hd⟩ := hid id rfl
    rw [← variableAt_eq_error_iff hd]
    simp

/-! ## Operations -/

/-- A declaration of a variable is refused where its stamp leads to what is no variable. -/
theorem declareVariable_eq_error_iff {stamp : Stamp} {v : Variable} {defining : Bool} :
    g.declareVariable ids stamp v defining = .error e ↔
      ∃ id, g.idByStamp? stamp = some id ∧ g.variableAt id = .error e := by
  unfold declareVariable
  split
  · next hid => simp [hid]
  · next id hid => simp [hid, map_eq_error_iff]

/-- A prototype is refused where its stamp, or else its name, leads to what is no function. -/
theorem declarePrototype_eq_error_iff {s : Signature} :
    g.declarePrototype ids s = .error e ↔
      ∃ id, g.idOf? s = some id ∧ g.functionAt id = .error e := by
  unfold declarePrototype
  split
  · next id hid => simp [hid, map_eq_error_iff]
  · next hid => simp [hid]

theorem defineFunction_eq_error_iff {s : Signature} {params : List Parameter} :
    g.defineFunction ids s params = .error e ↔
      ∃ id, g.idOf? s = some id ∧ g.functionAt id = .error e := by
  unfold defineFunction
  split
  · next id hid => simp [hid, map_eq_error_iff]
  · next hid => simp [hid]

/-- Code is refused where the symbol leads to what is no function. -/
theorem bindCode_eq_error_iff {symbol : Symbol} {code : CodeRange} :
    g.bindCode symbol code = .error e ↔
      ∃ id, g.idBySymbol? symbol = some id ∧ g.functionAt id = .error e := by
  unfold bindCode
  split
  · next hid => simp [hid]
  · next id hid => simp [hid, map_eq_error_iff]

theorem bindParameter_eq_error_iff {function param : Stamp} {symbol : Symbol} :
    g.bindParameter function param symbol = .error e ↔
      ∃ id, g.idByStamp? function = some id ∧ g.functionAt id = .error e := by
  unfold bindParameter
  split
  · next hid => simp [hid]
  · next id hid => simp [hid, map_eq_error_iff]

/-- A name leads to functions only, so that it is found by its name is never why a function is
refused. -/
theorem Grounded.mistakesVariable_idOf?_iff (h : Grounded ids g) (s : Signature) :
    (∃ id, g.idOf? s = some id ∧ g.functionAt id = .error e) ↔
      g.MistakesVariable (g.idByStamp? s.stamp) e := by
  rw [← mistakesVariable_iff (h.byStamp s.stamp)]
  refine exists_congr fun id => and_congr_left fun herror => ?_
  constructor
  · intro hid
    rcases idOf?_eq_some_iff.1 hid with hid | ⟨-, hid⟩
    · exact hid
    · obtain ⟨f, hf⟩ := h.byName s.name id hid
      cases (functionAt_eq_ok_iff.2 hf).symm.trans herror
  · exact fun hid => idOf?_eq_some_iff.2 (.inl hid)

end Definitions

namespace Locals

variable {l : Locals} {ids : IdSupply} {id : EntryId} {e : TableError} {function stamp : Stamp}
  {parent block : Block}

/-- A scope that is there is still there after a block was entered. -/
theorem childrenAt_enter (ids : IdSupply) (function : Stamp) (block : Block)
    {children : List EntryId} (hchildren : l.childrenAt id = .ok children) :
    ∃ children', (l.enter ids function block).2.2.childrenAt id = .ok children' := by
  obtain ⟨⟨x, ids', l'⟩, henter⟩ : ∃ r, l.enter ids function block = r := ⟨_, rfl⟩
  rw [henter]
  rcases enter_cases henter with ⟨-, -, rfl⟩ | ⟨-, -, -, rfl⟩
  · exact ⟨children, hchildren⟩
  · simp only [childrenAt_eq_ok_iff, get?_addScope] at hchildren ⊢
    split
    · exact ⟨[], rfl⟩
    · exact ⟨children, hchildren⟩

/-- The outer scope is looked at twice, and the second time there is nothing new to complain of. -/
theorem enterChild_eq_error_iff :
    l.enterChild ids function parent block = .error e ↔
      ∃ id, l.scopeByStamp? function parent = some id ∧ l.childrenAt id = .error e := by
  unfold enterChild
  split
  · next hid => simp [hid]
  · next id hid =>
    simp only [hid, Option.some.injEq, exists_eq_left']
    cases hchildren : l.childrenAt id with
    | error e' => simp [bind, Except.bind]
    | ok children =>
      obtain ⟨children', hchildren'⟩ := childrenAt_enter ids function block hchildren
      simp only [bind, Except.bind, hchildren']
      exact iff_of_false (fun h => nomatch h) fun h => nomatch h

/-- A variable is refused only by what is no scope. -/
theorem attach_eq_error_iff :
    l.attach function stamp block = .error e ↔
      ∃ var scope, l.idByStamp? stamp = some var ∧ l.scopeByStamp? function block = some scope ∧
        l.childrenAt scope = .error e := by
  unfold attach
  split
  · next var scope hvar hscope => simp [hvar, hscope, Definitions.map_eq_error_iff]
  · next hnone =>
    refine iff_of_false (fun h => nomatch h) ?_
    rintro ⟨var, scope, hvar, hscope, -⟩
    exact hnone var scope hvar hscope

end Locals

end DebugInfo
