import DebugInfo.Proofs.Locals.Cases
import DebugInfo.Proofs.Unit.Execution

/-!
# What it takes to bind, to enter and to emit

Binding the symbol of a global and entering a block work on definitions and locals at once, and an
emission is about what its symbols lead to.  Here are the ways in which they can end.  Where nothing
is found, the unit stays as it is.
-/

namespace DebugInfo.CompilationUnit

variable (u : CompilationUnit)

/-- The locals once the symbol, if there is one, leads to the scopes of the stamp. -/
def linkedLocals (function : Stamp) : Option Symbol → Locals
  | some symbol => (u.locals.linkSymbol function symbol).2
  | none => u.locals

/-- The locals once the symbol leads to the scopes of a definition, if that is a function. -/
def boundLocals (id : EntryId) (symbol : Symbol) : Definition → Locals
  | .function _ => linkSymbolAll (u.definitions.stamps id) symbol u.locals
  | .variable _ => u.locals

/-- To bind a symbol does nothing, or it writes the symbol into the entry that has the stamp. -/
theorem bindSymbol_cases (stamp : Stamp) (symbol : Symbol) :
    bindSymbol stamp symbol u = (none, u) ∨
    ∃ id d, u.definitions.idByStamp? stamp = some id ∧ u.definitions.get? id = some d ∧
      bindSymbol stamp symbol u = (some id, { u with
        definitions := (u.definitions.put id (d.withSymbol symbol)).addSymbol symbol id
        locals := u.boundLocals id symbol d }) := by
  cases hbind : u.definitions.bindSymbol stamp symbol with
  | none =>
    left
    rw [bindSymbol, hbind]
  | some r =>
    right
    obtain ⟨id, g⟩ := r
    obtain ⟨d, hid, hd, rfl⟩ := Definitions.bindSymbol_eq_some_iff.1 hbind
    refine ⟨id, d, hid, hd, ?_⟩
    have hget : ((u.definitions.put id (d.withSymbol symbol)).addSymbol symbol id).get? id =
        some (d.withSymbol symbol) := by
      simp
    simp only [bindSymbol, hbind, hget]
    cases d <;> rfl

/-- To enter a function does nothing, or it enters a scope and makes it the root of the function
that has the stamp. -/
theorem enterFunction_cases (function : Stamp) (block : Block) :
    (∃ answer, enterFunction function block u = (answer, u) ∧ ∀ x, answer ≠ .ok (some x)) ∨
    ∃ id f x ids l, u.definitions.idByStamp? function = some id ∧
      u.definitions.get? id = some (.function f) ∧
      (u.linkedLocals function f.symbol).enter u.ids function block = (x, ids, l) ∧
      enterFunction function block u = (.ok (some x), { u with
        ids
        locals := l
        definitions := u.definitions.put id (.function { f with rootScope := some x }) }) := by
  cases htracks : u.tracksLocals with
  | false =>
    left
    exact ⟨.ok none, by simp [enterFunction, htracks], by simp⟩
  | true =>
    cases hid : u.definitions.idByStamp? function with
    | none =>
      left
      exact ⟨.ok none, by simp [enterFunction, htracks, hid], by simp⟩
    | some id =>
      cases hf : u.definitions.functionAt id with
      | error e =>
        left
        exact ⟨.error e, by simp [enterFunction, htracks, hid, hf], by simp⟩
      | ok f =>
        right
        have hget := Definitions.functionAt_eq_ok_iff.1 hf
        have hroot (x : EntryId) : u.definitions.setRootScope id x =
            .ok (u.definitions.put id (.function { f with rootScope := some x })) :=
          Definitions.setRootScope_eq_ok_iff.2 ⟨f, hget, rfl⟩
        obtain ⟨⟨x, ids, l⟩, henter⟩ :
          ∃ r, (u.linkedLocals function f.symbol).enter u.ids function block = r := ⟨_, rfl⟩
        refine ⟨id, f, x, ids, l, rfl, hget, henter, ?_⟩
        cases hsymbol : f.symbol with
        | none | some symbol =>
          rw [hsymbol] at henter
          simp only [linkedLocals] at henter
          simp only [enterFunction, htracks, hid, hf, hsymbol, henter, hroot, if_true]

theorem enterChild_apply (function : Stamp) (parent block : Block) :
    enterChild function parent block u =
      (if u.tracksLocals then onLocals fun l ids => l.enterChild ids function parent block
        else pure none : UnitM (Option EntryId)) u := rfl

theorem attach_apply (function stamp : Stamp) (block : Block) :
    attach function stamp block u =
      (if u.tracksLocals then
        onLocals fun l ids => (l.attach function stamp block).map fun (b, l) => (b, ids, l)
        else pure false : UnitM Bool) u := rfl

/-- To enter a scope inside of another does nothing, or the new scope goes into the one that is
found for the parent. -/
theorem enterChild_cases (function : Stamp) (parent block : Block) :
    (∃ answer, enterChild function parent block u = (answer, u) ∧ ∀ x, answer ≠ .ok (some x)) ∨
    ∃ parentId x children ids l l', u.locals.scopeByStamp? function parent = some parentId ∧
      u.locals.enter u.ids function block = (x, ids, l) ∧
      l.get? parentId = some (.scope children) ∧
      (l' = l ∨ l' = l.put parentId (.scope (children ++ [x]))) ∧
      enterChild function parent block u = (.ok (some x), { u with ids, locals := l' }) := by
  rw [enterChild_apply]
  split
  · unfold onLocals
    dsimp only
    cases henter : u.locals.enterChild u.ids function parent block with
    | error e => exact .inl ⟨.error e, rfl, by simp⟩
    | ok r =>
      obtain ⟨answer, ids, l'⟩ := r
      rcases Locals.enterChild_cases henter with ⟨-, rfl, rfl, rfl⟩ |
        ⟨parentId, x, children, l, hparent, rfl, hl, hchildren, hl'⟩
      · exact .inl ⟨.ok none, rfl, by simp⟩
      · exact .inr ⟨parentId, x, children, ids, l, l', hparent, hl, hchildren,
          hl'.imp And.right And.right, rfl⟩
  · exact .inl ⟨.ok none, rfl, by simp⟩

/-- An emission whose symbols lead nowhere is ignored. -/
theorem emit_cases (e : Emission) :
    (emit e u).2 = u ∨ ∃ event, u.event? e = some event ∧
      (emit e u).2 = { u with lifetimes := u.lifetimes.apply event } := by
  have hmodify (f : CompilationUnit → CompilationUnit) :
      (modify f : StateM CompilationUnit PUnit) u = ((), f u) := rfl
  rw [emit, hmodify]
  split
  · next event hevent => exact .inr ⟨event, hevent, rfl⟩
  · exact .inl rfl

end DebugInfo.CompilationUnit
