import Mathlib.Logic.Relation
import DebugInfo.Proofs.Definitions.Grounded
import DebugInfo.Proofs.IdSpace.Supply
import DebugInfo.Proofs.Persistence.Entries

/-!
# Changes of definitions

Each operation on the table is a chain of changes of six kinds, so what is to be shown of all
operations has to be shown of these.
-/

namespace DebugInfo

/-- A function that is defined again may become what the definition says. -/
theorem Definition.Evolves.redefined (s : Signature) (params : List Parameter) (f : Function) :
    (Definition.function f).Evolves (.function (Definitions.redefined s params f)) :=
  .function ⟨fun _ => rfl, .refl _, .refl _, .refl _⟩

namespace Definitions

inductive Change : IdSupply × Definitions → IdSupply × Definitions → Prop where
  | add (ids : IdSupply) (g : Definitions) (d : Definition) :
      Change (ids, g) (ids.fresh.2, g.put ids.fresh.1 d)
  | put {ids : IdSupply} {g : Definitions} {id : EntryId} {d d' : Definition}
      (hd : g.get? id = some d) (h : d.Evolves d') : Change (ids, g) (ids, g.put id d')
  | addStamp {ids : IdSupply} {g : Definitions} {stamp : Stamp} {id : EntryId}
      (h : g.idByStamp? stamp = none ∨ g.idByStamp? stamp = some id) :
      Change (ids, g) (ids, g.addStamp stamp id)
  | addName (ids : IdSupply) (g : Definitions) (name : Name) (id : EntryId) :
      Change (ids, g) (ids, g.addName name id)
  | addSymbol (ids : IdSupply) (g : Definitions) (symbol : Symbol) (id : EntryId) :
      Change (ids, g) (ids, g.addSymbol symbol id)
  | markPrinted (ids : IdSupply) (g : Definitions) (name : Name) :
      Change (ids, g) (ids, g.markPrinted name)

abbrev Changes : IdSupply × Definitions → IdSupply × Definitions → Prop :=
  Relation.ReflTransGen Change

/-! ## Operations -/

section Operations

variable {ids ids' : IdSupply} {g g' : Definitions} {id : EntryId} {s : Signature} {stamp : Stamp}
  {symbol : Symbol}

/-- A declaration of a variable goes in changes. -/
theorem changes_declareVariable {v : Variable} {defining : Bool}
    (h : g.declareVariable ids stamp v defining = .ok (id, ids', g')) :
    Changes (ids, g) (ids', g') := by
  rcases declareVariable_cases h with ⟨hs, rfl, rfl, rfl⟩ | ⟨-, rfl, old, hold, rfl⟩
  · exact .tail (.single (.add ids g _)) (.addStamp (.inl hs))
  · exact .single (.put hold (.redeclared old defining))

/-- A function is stored in whatever way, and its stamp and its name are made to lead to it. -/
theorem changes_record {f : Function} (hput : Change (ids, g) (ids', g.put id (.function f)))
    (hstamp : g.idByStamp? s.stamp = none ∨ g.idByStamp? s.stamp = some id) :
    Changes (ids, g) (ids', g.record id s f) := by
  have hrecord : Changes (ids, g) (ids', (g.put id (.function f)).addStamp s.stamp id) :=
    .tail (.single hput) (.addStamp hstamp)
  exact .tail hrecord (.addName ids' _ s.name id)

/-- A prototype is a new entry with its stamp and name, or one more stamp. -/
theorem changes_declarePrototype (h : g.declarePrototype ids s = .ok (id, ids', g')) :
    Changes (ids, g) (ids', g') := by
  rcases declarePrototype_cases h with ⟨hs, rfl, rfl, rfl⟩ | ⟨hs, rfl, -, rfl⟩
  · exact changes_record (.add ids g _) (.inl (idOf?_eq_none_iff.1 hs).1)
  · exact .single (.addStamp (idByStamp?_of_idOf?_eq_some hs))

/-- A definition is a new entry with its stamp and name, or a function that is replaced and found
again. -/
theorem changes_defineFunction {params : List Parameter}
    (h : g.defineFunction ids s params = .ok (id, ids', g')) : Changes (ids, g) (ids', g') := by
  rcases defineFunction_cases h with ⟨hs, rfl, rfl, rfl⟩ | ⟨hs, rfl, old, hold, rfl⟩
  · exact changes_record (.add ids g _) (.inl (idOf?_eq_none_iff.1 hs).1)
  · exact changes_record (.put hold (.redefined s params old)) (idByStamp?_of_idOf?_eq_some hs)

/-- A binding changes the entry first, and then lets the symbol lead to it. -/
theorem changes_withSymbol {d : Definition} (hd : g.get? id = some d) (ids : IdSupply)
    (symbol : Symbol) :
    Changes (ids, g) (ids, (g.put id (d.withSymbol symbol)).addSymbol symbol id) :=
  .tail (.single (.put hd (.withSymbol symbol d))) (.addSymbol ids _ symbol id)

theorem changes_bindCode {code : CodeRange} {b : Bool} (h : g.bindCode symbol code = .ok (b, g'))
    (ids : IdSupply) : Changes (ids, g) (ids, g') := by
  rcases bindCode_cases h with rfl | ⟨id, f, hf, rfl⟩
  · exact .refl
  · exact .single (.put hf (.function ⟨fun h => h, .refl _, staysSet_some _ code, .refl _⟩))

theorem changes_bindParameter {function param : Stamp} {b : Bool}
    (h : g.bindParameter function param symbol = .ok (b, g')) (ids : IdSupply) :
    Changes (ids, g) (ids, g') := by
  rcases bindParameter_cases h with rfl | ⟨id, f, hf, rfl⟩
  · exact .refl
  · exact .single (.put hf (.function ⟨fun h => h, .refl _, .refl _, .refl _⟩))

/-- To set a root scope is a single change. -/
theorem change_rootScope {f : Function} (hf : g.get? id = some (.function f)) (ids : IdSupply)
    (scope : EntryId) :
    Change (ids, g) (ids, g.put id (.function { f with rootScope := some scope })) :=
  .put hf (.function ⟨fun h => h, .refl _, .refl _, staysSet_some _ scope⟩)

end Operations

/-! ## What changes keep -/

/-- Definitions become only what they may, and every stamp leads where it led. -/
structure Evolves (g g' : Definitions) : Prop where
  entries : g.entries.Evolves Definition.Evolves g'.entries
  stamps : KeepsStamps g g'

/-- Tables with the same entries differ in their indices only, and there it is enough to look at the
stamps. -/
theorem Evolves.of_entries_eq {g g' : Definitions} (hentries : g'.entries = g.entries)
    (hstamps : KeepsStamps g g') : Evolves g g' :=
  ⟨hentries ▸ .refl Definition.Evolves.refl _, hstamps⟩

theorem Evolves.refl (g : Definitions) : Evolves g g := .of_entries_eq rfl (.refl g)

theorem Evolves.trans {g₁ g₂ g₃ : Definitions} (h : Evolves g₁ g₂) (h' : Evolves g₂ g₃) :
    Evolves g₁ g₃ :=
  ⟨h.entries.trans Definition.Evolves.trans h'.entries, h.stamps.trans h'.stamps⟩

namespace Change

variable {s s' : IdSupply × Definitions}

/-- A change takes at most one id from the supply. -/
theorem draws (h : Change s s') : Draws s.1 s.2.entries.Has s'.1 s'.2.entries.Has := by
  cases h with
  | add ids g d => exact g.entries.draws_insert_fresh ids d
  | put hd h => exact EntryMap.draws_insert hd _ _
  | addStamp | addName | addSymbol | markPrinted => exact .nothing fun _ => .rfl

/-- No change loses an entry or a stamp. -/
theorem evolves (h : Change s s') (hcovers : s.1.Covers s.2.entries.Has) :
    Evolves s.2 s'.2 := by
  cases h with
  | add ids g d => exact ⟨EntryMap.evolves_insert_fresh .refl hcovers d, .refl _⟩
  | put hd h => exact ⟨EntryMap.evolves_insert .refl hd h, .refl _⟩
  | addStamp h => exact .of_entries_eq rfl (keepsStamps_addStamp h)
  | addName | addSymbol | markPrinted => exact .of_entries_eq rfl (.refl _)

end Change

end Definitions

end DebugInfo
