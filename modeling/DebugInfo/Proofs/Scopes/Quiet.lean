import DebugInfo.Proofs.Definitions.Grounded
import DebugInfo.Proofs.Locals.Mirroring
import DebugInfo.Proofs.Unit.Cases
import DebugInfo.Proofs.Unit.Declarations

/-!
# Operations that bind and enter nothing

Most operations on a unit neither bind a symbol to a definition nor enter a block.  What they do is
`Quiet`: definitions keep their stamps and symbols, new ones come without a symbol, and the indices
of scopes stay as they are.
-/

namespace DebugInfo

namespace Definitions

/-- Definitions keep their kind and their symbol, and new ones have no symbol. -/
structure Carries (g g' : Definitions) : Prop where
  kept : ∀ id d, g.get? id = some d →
    ∃ d', g'.get? id = some d' ∧ d'.isFunction = d.isFunction ∧ d'.symbol = d.symbol
  added : ∀ id d', g.get? id = none → g'.get? id = some d' → d'.symbol = none

theorem Carries.of_get?_eq {g g' : Definitions} (h : g'.get? = g.get?) : Carries g g' where
  kept id d hd := ⟨d, by rw [h, hd], rfl, rfl⟩
  added id d' hnone hd := by
    rw [h, hnone] at hd
    cases hd

theorem Carries.refl (g : Definitions) : Carries g g := .of_get?_eq rfl

theorem Carries.trans {g₁ g₂ g₃ : Definitions} (h : Carries g₁ g₂) (h' : Carries g₂ g₃) :
    Carries g₁ g₃ := by
  constructor
  · intro id d hd
    obtain ⟨d₂, hd₂, hkind, hsymbol⟩ := h.kept id d hd
    obtain ⟨d₃, hd₃, hkind', hsymbol'⟩ := h'.kept id d₂ hd₂
    exact ⟨d₃, hd₃, hkind'.trans hkind, hsymbol'.trans hsymbol⟩
  · intro id d₃ hnone hd₃
    cases hd₂ : g₂.get? id with
    | none => exact h'.added id d₃ hd₂ hd₃
    | some d₂ =>
      obtain ⟨d, hd, -, hsymbol⟩ := h'.kept id d₂ hd₂
      rw [hd₃] at hd
      cases hd
      rw [hsymbol]
      exact h.added id d₂ hnone hd₂

variable {g g' : Definitions} {ids ids' : IdSupply} {id : EntryId} {d : Definition}

/-- An entry may be overwritten with one of its kind that has its symbol. -/
theorem carries_put (hd : g.get? id = some d) (d' : Definition)
    (hkind : d'.isFunction = d.isFunction) (hsymbol : d'.symbol = d.symbol) :
    Carries g (g.put id d') := by
  constructor
  · intro id' e he
    rw [get?_put]
    split
    · next heq =>
      subst heq
      rw [hd] at he
      cases he
      exact ⟨d', rfl, hkind, hsymbol⟩
    · exact ⟨e, he, rfl, rfl⟩
  · intro id' e hnone he
    rw [get?_put] at he
    split at he
    · next heq =>
      rw [← heq, hd] at hnone
      cases hnone
    · rw [hnone] at he
      cases he

/-- A new entry without a symbol may be added. -/
theorem Grounded.carries_put_fresh (h : Grounded ids g) (d : Definition)
    (hsymbol : d.symbol = none) : Carries g (g.put ids.fresh.1 d) := by
  constructor
  · intro id e he
    exact ⟨e, by rw [get?_put_of_ne (h.ne_fresh he), he], rfl, rfl⟩
  · intro id e hnone he
    rw [get?_put] at he
    split at he
    · cases he
      exact hsymbol
    · rw [hnone] at he
      cases he

/-! What the operations but the binding of a symbol do. -/

/-- The table stays grounded, and no stamp and no symbol is moved. -/
structure Undisturbed (ids : IdSupply) (g : Definitions) (ids' : IdSupply) (g' : Definitions) :
    Prop where
  grounded : Grounded ids' g'
  stamps : KeepsStamps g g'
  carries : Carries g g'

namespace Grounded

variable (h : Grounded ids g)
include h

theorem undisturbed_refl : Undisturbed ids g ids g := ⟨h, .refl g, .refl g⟩

/-- To overwrite an entry without changing its kind and symbol disturbs nothing. -/
theorem undisturbed_put (hd : g.get? id = some d) (d' : Definition)
    (hkind : d'.isFunction = d.isFunction) (hsymbol : d'.symbol = d.symbol) :
    Undisturbed ids g ids (g.put id d') :=
  ⟨h.put hd hkind, .refl g, carries_put hd d' hkind hsymbol⟩

/-- To declare a variable disturbs nothing. -/
theorem undisturbed_declareVariable {stamp : Stamp} {v : Variable} {defining : Bool}
    (hsymbol : v.symbol = none)
    (ho : g.declareVariable ids stamp v defining = .ok (id, ids', g')) :
    Undisturbed ids g ids' g' := by
  obtain ⟨hgrounded, hstamps⟩ := h.declareVariable ho
  refine ⟨hgrounded, hstamps, ?_⟩
  rcases declareVariable_cases ho with ⟨-, rfl, rfl, rfl⟩ | ⟨-, rfl, old, hold, rfl⟩
  · exact (h.carries_put_fresh (.variable v) hsymbol).trans (.of_get?_eq rfl)
  · exact carries_put hold _ rfl rfl

theorem undisturbed_declarePrototype {s : Signature}
    (ho : g.declarePrototype ids s = .ok (id, ids', g')) : Undisturbed ids g ids' g' := by
  obtain ⟨hgrounded, hstamps⟩ := h.declarePrototype ho
  refine ⟨hgrounded, hstamps, ?_⟩
  rcases declarePrototype_cases ho with ⟨-, rfl, rfl, rfl⟩ | ⟨-, rfl, -, rfl⟩
  · exact (h.carries_put_fresh _ rfl).trans (.of_get?_eq rfl)
  · exact .of_get?_eq rfl

theorem undisturbed_defineFunction {s : Signature} {params : List Parameter}
    (ho : g.defineFunction ids s params = .ok (id, ids', g')) : Undisturbed ids g ids' g' := by
  obtain ⟨hgrounded, hstamps⟩ := h.defineFunction ho
  refine ⟨hgrounded, hstamps, ?_⟩
  rcases defineFunction_cases ho with ⟨-, rfl, rfl, rfl⟩ | ⟨-, rfl, old, hold, rfl⟩
  · exact (h.carries_put_fresh _ rfl).trans (.of_get?_eq rfl)
  · have hput := carries_put hold (.function (redefined s params old)) rfl rfl
    exact hput.trans (.of_get?_eq rfl)

theorem undisturbed_bindCode {symbol : Symbol} {code : CodeRange} {b : Bool}
    (ho : g.bindCode symbol code = .ok (b, g')) : Undisturbed ids g ids g' := by
  rcases bindCode_cases ho with rfl | ⟨id, f, hf, rfl⟩
  · exact h.undisturbed_refl
  · exact h.undisturbed_put hf _ rfl rfl

theorem undisturbed_bindParameter {function param : Stamp} {symbol : Symbol} {b : Bool}
    (ho : g.bindParameter function param symbol = .ok (b, g')) : Undisturbed ids g ids g' := by
  rcases bindParameter_cases ho with rfl | ⟨id, f, hf, rfl⟩
  · exact h.undisturbed_refl
  · exact h.undisturbed_put hf _ rfl rfl

end Grounded

end Definitions

namespace CompilationUnit

open Definitions (Grounded Undisturbed Carries KeepsStamps)

/-- Nothing was bound or entered between the two units. -/
structure Quiet (u u' : CompilationUnit) : Prop where
  grounded : Grounded u'.ids u'.definitions
  stamps : KeepsStamps u.definitions u'.definitions
  carries : Carries u.definitions u'.definitions
  scopes : u.locals.SameScopes u'.locals

namespace Quiet

variable {u₀ u : CompilationUnit}

theorem refl (h : Grounded u.ids u.definitions) : Quiet u u :=
  ⟨h, .refl _, .refl _, .refl _⟩

variable (h : Quiet u₀ u)
include h

/-- The definitions and the indices of scopes are not touched. -/
theorem of_same {u' : CompilationUnit} (hids : u.ids.allocated ≤ u'.ids.allocated)
    (hdefinitions : u'.definitions = u.definitions) (hscopes : u.locals.SameScopes u'.locals) :
    Quiet u₀ u' := by
  refine ⟨?_, ?_, ?_, h.scopes.trans hscopes⟩
  · rw [hdefinitions]
    exact h.grounded.mono hids
  · rw [hdefinitions]
    exact h.stamps
  · rw [hdefinitions]
    exact h.carries

/-- A change to the definitions that disturbs nothing is quiet. -/
theorem of_undisturbed {ids : IdSupply} {g : Definitions}
    (hg : Undisturbed u.ids u.definitions ids g) : Quiet u₀ { u with ids, definitions := g } :=
  ⟨hg.grounded, h.stamps.trans hg.stamps, h.carries.trans hg.carries, h.scopes⟩

end Quiet

variable (u₀ : CompilationUnit)

/-- Declarations bind and enter nothing. -/
theorem quiet_stable : Stable (fun _ => True) fun _ => Quiet u₀ where
  forget h _ := h
  noteFile h _ := h.of_same (Nat.le_refl _) rfl (.refl _)
  intern {_ u} h t := h.of_same (TypeTable.intern_appends t (u.ids, u.types)).allocated rfl (.refl _)
  update h _ _ _ _ _ _ _ := h.of_same (Nat.le_refl _) rfl (.refl _)
  recordVariable h _ _ _ _ _ _ _ _ hsymbol ho :=
    h.of_undisturbed (h.grounded.undisturbed_declareVariable hsymbol ho)
  recordPrototype h _ _ _ _ _ _ ho := h.of_undisturbed (h.grounded.undisturbed_declarePrototype ho)
  recordFunction h _ _ _ _ _ _ _ ho := h.of_undisturbed (h.grounded.undisturbed_defineFunction ho)
  recordLocal h _ _ _ _ _ _ _ _ hl := by
    rcases Locals.declare_cases hl with ⟨-, rfl, rfl⟩ | ⟨-, -, rfl, rfl⟩
    · exact h
    · exact h.of_same (Nat.le_succ _) rfl ⟨rfl, rfl, rfl, rfl⟩

/-- Nothing is bound or entered, whatever the operation answers. -/
abbrev IsQuiet {α : Type} (m : UnitM α) : Prop := Preserves (Quiet u₀) m

theorem attach_isQuiet (function stamp : Stamp) (block : Block) :
    IsQuiet u₀ (attach function stamp block) := by
  refine Ensures.bind .get fun u => ?_
  split
  · refine .onLocals (fun u b ids l h ho => ?_) fun _ h => h
    obtain ⟨⟨b, l⟩, ho, heq⟩ := Definitions.map_eq_ok_iff.1 ho
    cases heq
    rcases Locals.attach_cases ho with rfl | ⟨_, _, _, -, -, -, rfl⟩
    · exact h.of_same (Nat.le_refl _) rfl (.refl _)
    · exact h.of_same (Nat.le_refl _) rfl ⟨rfl, rfl, rfl, rfl⟩
  · exact .pure fun _ h => h

theorem bindLocal_isQuiet (stamp : Stamp) (symbol : Symbol) :
    IsQuiet u₀ (liftM (bindLocal stamp symbol) : UnitM (Option EntryId)) := by
  refine .lift fun u h => ?_
  unfold bindLocal
  split
  · exact h
  · next id l hl =>
    obtain ⟨v, -, -, rfl⟩ := Locals.bindSymbol_cases hl
    exact h.of_same (Nat.le_refl _) rfl ⟨rfl, rfl, rfl, rfl⟩

theorem bindCode_isQuiet (symbol : Symbol) (code : CodeRange) :
    IsQuiet u₀ (bindCode symbol code) := by
  refine .changeDefinitions (fun u b g h ho => ?_) fun _ h => h
  exact h.of_undisturbed (h.grounded.undisturbed_bindCode ho)

theorem bindParameter_isQuiet (function param : Stamp) (symbol : Symbol) :
    IsQuiet u₀ (bindParameter function param symbol) := by
  refine .changeDefinitions (fun u b g h ho => ?_) fun _ h => h
  exact h.of_undisturbed (h.grounded.undisturbed_bindParameter ho)

theorem emit_isQuiet (e : Emission) : IsQuiet u₀ (liftM (emit e) : UnitM Unit) := by
  refine .lift fun u h => ?_
  rcases u.emit_cases e with heq | ⟨event, -, heq⟩
  · rwa [heq]
  · rw [heq]
    exact h.of_same (Nat.le_refl _) rfl (.refl _)

theorem markPrinted_isQuiet (name : Name) :
    IsQuiet u₀ (liftM (markPrinted name) : UnitM Unit) := by
  refine .lift fun u h => ?_
  have hsame : Undisturbed u.ids u.definitions u.ids (u.definitions.markPrinted name) :=
    ⟨h.grounded.markPrinted name, .refl _, .of_get?_eq rfl⟩
  exact h.of_undisturbed hsame

/-- Operations that neither bind a symbol to a definition nor enter a block, nor restart the
unit. -/
def Operation.isQuiet {σ : Type} : Operation σ → Bool
  | .restart _ | .bindSymbol _ _ | .enterFunction _ _ | .enterChild _ _ _ => false
  | _ => true

/-- Every operation but those that enter scopes and bind symbols to definitions is quiet. -/
theorem perform_isQuiet {σ : Type} {op : Operation σ} (hop : op.isQuiet = true) :
    IsQuiet u₀ (perform op) := by
  cases op with
  | freshId => exact .answer (.lift fun u h => h.of_same (Nat.le_succ _) rfl (.refl _)) _
  | internType t => exact (internType_learns (quiet_stable u₀) [] t).answer _
  | updateType id update =>
    have hlearns := updateType_learns (quiet_stable u₀) update.references id (List.Subset.refl _)
      fun _ _ => trivial
    exact hlearns.answer _
  | declare d => exact (declare_stable (quiet_stable u₀) d trivial).answer _
  | declareLocal d => exact (declareLocal_stable (quiet_stable u₀) d trivial).answer _
  | attach function stamp block => exact (attach_isQuiet u₀ function stamp block).answer _
  | bindLocal stamp symbol => exact (bindLocal_isQuiet u₀ stamp symbol).answer _
  | bindCode symbol code => exact (bindCode_isQuiet u₀ symbol code).answer _
  | bindParameter function param symbol =>
    exact (bindParameter_isQuiet u₀ function param symbol).answer _
  | emit e => exact (emit_isQuiet u₀ e).answer _
  | setSectionStart name start =>
    exact .answer (.lift fun u h => h.of_same (Nat.le_refl _) rfl (.refl _)) _
  | setSectionStop name stop =>
    exact .answer (.lift fun u h => h.of_same (Nat.le_refl _) rfl (.refl _)) _
  | enumerate cb start =>
    exact .answer (.modify fun u h => h.of_same (Nat.le_refl _) rfl (.refl _)) _
  | addLabel function position addr =>
    exact .answer (.lift fun u h => h.of_same (Nat.le_refl _) rfl (.refl _)) _
  | markPrinted name => exact (markPrinted_isQuiet u₀ name).answer _
  | _ => cases hop

end CompilationUnit

end DebugInfo
