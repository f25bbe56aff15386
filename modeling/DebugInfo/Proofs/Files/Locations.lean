import DebugInfo.Proofs.Links.Types
import DebugInfo.Proofs.Unit.Frames

/-!
# Stored locations

A location that is stored in a table came with a declaration or with an update of a type.  Whatever
is true of the locations that come with operations is therefore true of those that are stored, in
descriptors, in definitions and in local variables.
-/

namespace DebugInfo

variable {L : SourceLoc → Prop}

/-! ## Types -/

theorem Descriptor.loc_ofBase (b : BaseType) : (Descriptor.ofBase b).loc = none := by
  cases b <;> rfl

/-- Interning a type says nothing about where it is declared. -/
theorem Descriptor.Fits.loc_eq_none {R : CanonicalType → EntryId → Prop} {d : Descriptor}
    {t : CanonicalType} (h : d.Fits R t) : d.loc = none := by
  cases h with
  | base b => exact loc_ofBase b
  | _ => rfl

/-- Only the first location is kept. -/
theorem TypeUpdate.loc_result? {u : TypeUpdate} {d d' : Descriptor} (h : u.result? d = some d') :
    d'.loc = d.loc.or u.loc? := by
  cases u <;> cases d <;> simp only [result?, Option.some.injEq, reduceCtorEq] at h <;> subst h <;>
    first | rfl | exact Option.or_none.symm

namespace TypeTable

/-- The locations in the descriptors satisfy `L`. -/
def LocsIn (L : SourceLoc → Prop) (table : TypeTable) : Prop :=
  ∀ id d l, table.get? id = some d → d.loc = some l → L l

/-- An empty table has no locations. -/
theorem locsIn_empty (mode : KeyMode) : (empty mode).LocsIn L := by
  intro id d l hd
  simp [empty, get?] at hd

/-- What is interned has no location yet. -/
theorem LocsIn.interns {ts : List CanonicalType} {s s' : State} (hs : s.2.LocsIn L)
    (h : Interns ts s s') : s'.2.LocsIn L := by
  induction h with
  | refl => exact hs
  | add _ _ _ hfits ih =>
    intro id d l hd hl
    rw [get?_add] at hd
    split at hd
    · cases hd
      rw [hfits.loc_eq_none] at hl
      cases hl
    · exact ih id d l hd hl

/-- The only location that an update may add is its own. -/
theorem LocsIn.update {table table' : TypeTable} (h : table.LocsIn L) {id : EntryId}
    {u : TypeUpdate} {changed : Bool} (hu : table.update id u = .ok (changed, table'))
    (hloc : ∀ l, u.loc? = some l → L l) : table'.LocsIn L := by
  obtain ⟨d, d', hd, hd', rfl⟩ := exists_of_update_eq_ok hu
  intro id' e l he hl
  rw [get?_replace] at he
  split at he
  · cases he
    rw [TypeUpdate.loc_result? hd', Option.or_eq_some_iff] at hl
    rcases hl with hl | ⟨-, hl⟩
    · exact h id d l hd hl
    · exact hloc l hl
  · exact h id' e l he hl

end TypeTable

/-! ## Definitions -/

namespace Definitions

/-- The locations of the definitions satisfy `L`. -/
def LocsIn (L : SourceLoc → Prop) (g : Definitions) : Prop := ∀ id d, g.get? id = some d → L d.loc

variable {g g' : Definitions} {ids ids' : IdSupply} {id : EntryId}

theorem locsIn_empty : LocsIn L ∅ := by
  intro id d hd
  rw [get?_empty] at hd
  cases hd

namespace LocsIn

variable (h : g.LocsIn L)
include h

/-- An entry may be put where it has an allowed location. -/
theorem put (id : EntryId) {d : Definition} (hd : L d.loc) : (g.put id d).LocsIn L := by
  intro id' d' hd'
  rw [get?_put] at hd'
  split at hd'
  · cases hd'
    exact hd
  · exact h id' d' hd'

/-- The definition at an id becomes another one that was declared at the same place. -/
theorem replace {d d' : Definition} (hd : g.get? id = some d) (hloc : d'.loc = d.loc) :
    (g.put id d').LocsIn L :=
  h.put id (hloc ▸ h id d hd)

/-- Nothing but its own location is stored where a variable is declared. -/
theorem declareVariable {stamp : Stamp} {v : Variable} {defining : Bool} (hv : L v.loc)
    (ho : g.declareVariable ids stamp v defining = .ok (id, ids', g')) : g'.LocsIn L := by
  rcases declareVariable_cases ho with ⟨-, -, -, rfl⟩ | ⟨-, -, old, hold, rfl⟩
  · exact h.put id (d := .variable v) hv
  · exact h.replace hold rfl

/-- Nothing but its own location is stored where a function is declared or defined. -/
theorem declarePrototype {s : Signature} (hs : L s.loc)
    (ho : g.declarePrototype ids s = .ok (id, ids', g')) : g'.LocsIn L := by
  rcases declarePrototype_cases ho with ⟨-, -, -, rfl⟩ | ⟨-, -, -, rfl⟩
  · exact h.put id (d := .function s.declared) hs
  · exact h

theorem defineFunction {s : Signature} {params : List Parameter} (hs : L s.loc)
    (ho : g.defineFunction ids s params = .ok (id, ids', g')) : g'.LocsIn L := by
  rcases defineFunction_cases ho with ⟨-, -, -, rfl⟩ | ⟨-, -, old, hold, rfl⟩
  · exact h.put id (d := .function (s.defined params)) hs
  · exact h.put id (d := .function (redefined s params old)) hs

theorem withSymbol {d : Definition} (hd : g.get? id = some d) (symbol : Symbol) :
    ((g.put id (d.withSymbol symbol)).addSymbol symbol id).LocsIn L := by
  refine h.replace hd ?_
  cases d <;> rfl

theorem bindCode {symbol : Symbol} {code : CodeRange} {b : Bool}
    (ho : g.bindCode symbol code = .ok (b, g')) : g'.LocsIn L := by
  rcases bindCode_cases ho with rfl | ⟨id, f, hf, rfl⟩
  · exact h
  · exact h.replace hf rfl

theorem bindParameter {function param : Stamp} {symbol : Symbol} {b : Bool}
    (ho : g.bindParameter function param symbol = .ok (b, g')) : g'.LocsIn L := by
  rcases bindParameter_cases ho with rfl | ⟨id, f, hf, rfl⟩
  · exact h
  · exact h.replace hf rfl

end LocsIn

end Definitions

/-! ## Locals -/

namespace Locals

/-- The locations of the variables satisfy `L`. -/
def LocsIn (L : SourceLoc → Prop) (l : Locals) : Prop :=
  ∀ id v, l.get? id = some (.variable v) → L v.loc

variable {l l' : Locals} {ids ids' : IdSupply} {id x : EntryId}

theorem locsIn_empty : LocsIn L ∅ := by
  intro id v hv
  rw [get?_empty] at hv
  cases hv

namespace LocsIn

variable (h : l.LocsIn L)
include h

theorem put (id : EntryId) {e : Local} (he : ∀ v, e = .variable v → L v.loc) :
    (l.put id e).LocsIn L := by
  intro id' v hv
  rw [get?_put] at hv
  split at hv
  · cases hv
    exact he v rfl
  · exact h id' v hv

theorem putScope (id : EntryId) (children : List EntryId) :
    (l.put id (.scope children)).LocsIn L :=
  h.put id fun _ heq => nomatch heq

/-- Nothing but its own location is stored where a local is declared. -/
theorem declare {stamp : Stamp} {v : LocalVariable} (hv : L v.loc)
    (ho : l.declare ids stamp v = (id, ids', l')) : l'.LocsIn L := by
  rcases declare_cases ho with ⟨-, -, rfl⟩ | ⟨-, -, -, rfl⟩
  · exact h
  · exact h.put id (e := .variable v) fun w heq => by cases heq; exact hv

/-- A scope has no location. -/
theorem enter {function : Stamp} {block : Block} (ho : l.enter ids function block = (x, ids', l')) :
    l'.LocsIn L := by
  rcases enter_cases ho with ⟨-, -, rfl⟩ | ⟨-, -, -, rfl⟩
  · exact h
  · intro id v hv
    rw [get?_addScope] at hv
    split at hv
    · cases hv
    · exact h id v hv

theorem attach {function stamp : Stamp} {block : Block} {b : Bool}
    (ho : l.attach function stamp block = .ok (b, l')) : l'.LocsIn L := by
  rcases attach_cases ho with rfl | ⟨var, scope, children, -, -, -, rfl⟩
  · exact h
  · exact h.putScope scope _

/-- No location is added where a symbol is bound. -/
theorem bindSymbol {stamp : Stamp} {symbol : Symbol}
    (ho : l.bindSymbol stamp symbol = some (id, l')) : l'.LocsIn L := by
  obtain ⟨v, -, hv, rfl⟩ := bindSymbol_cases ho
  exact h.put id (e := .variable { v with symbol := some symbol }) fun w heq => by
    cases heq
    exact h id v hv

/-- A symbol has no location. -/
theorem linkSymbol (function : Stamp) (symbol : Symbol) :
    (l.linkSymbol function symbol).2.LocsIn L := by
  obtain ⟨m, heq, -⟩ := linkSymbol_eq l function symbol
  rw [heq]
  exact h

theorem linkSymbolAll (stamps : List Stamp) (symbol : Symbol) :
    (CompilationUnit.linkSymbolAll stamps symbol l).LocsIn L := by
  induction stamps generalizing l with
  | nil => exact h
  | cons stamp stamps ih => exact ih (h.linkSymbol stamp symbol)

end LocsIn

end Locals

namespace CompilationUnit

/-! ## Units -/

/-- The location that comes with an operation, if one does. -/
def Operation.loc? {σ : Type} : Operation σ → Option SourceLoc
  | .updateType _ update => update.loc?
  | .declare d => some d.loc
  | .declareLocal d => some d.loc
  | _ => none

/-- Every location that is stored in the unit satisfies `L`. -/
structure LocsIn (L : SourceLoc → Prop) (u : CompilationUnit) : Prop where
  types : u.types.LocsIn L
  definitions : u.definitions.LocsIn L
  locals : u.locals.LocsIn L

variable {u : CompilationUnit}

/-- More locations may be allowed. -/
theorem LocsIn.mono {L' : SourceLoc → Prop} (h : u.LocsIn L) (hL : ∀ l, L l → L' l) :
    u.LocsIn L' where
  types id d l hd hl := hL l (h.types id d l hd hl)
  definitions id d hd := hL d.loc (h.definitions id d hd)
  locals id v hv := hL v.loc (h.locals id v hv)

/-- Where there are no entries, there are no locations. -/
theorem locsIn_of_isEmpty (h : IsEmpty u) : u.LocsIn L := by
  refine ⟨?_, ?_, ?_⟩
  · rw [h.types]
    exact TypeTable.locsIn_empty _
  · rw [h.definitions]
    exact Definitions.locsIn_empty
  · rw [h.locals]
    exact Locals.locsIn_empty

/-- What is interned has no location yet. -/
theorem LocsIn.internType (h : u.LocsIn L) (t : TypeExpr Attr) : (internType t u).2.LocsIn L where
  types := h.types.interns (TypeTable.intern_interning t (u.ids, u.types)).1
  definitions := h.definitions
  locals := h.locals

/-- A declaration stores its own location and no other. -/
theorem locsIn_stable : Stable L fun _ => LocsIn L where
  forget h _ := h
  noteFile h _ := ⟨h.types, h.definitions, h.locals⟩
  intern h t := h.internType t
  update h _ _ _ _ _ hloc hu := ⟨h.types.update hu hloc, h.definitions, h.locals⟩
  recordVariable h _ _ _ _ _ _ _ hv _ ho := ⟨h.types, h.definitions.declareVariable hv ho, h.locals⟩
  recordPrototype h _ _ _ _ _ hs ho := ⟨h.types, h.definitions.declarePrototype hs ho, h.locals⟩
  recordFunction h _ _ _ _ _ _ hs ho := ⟨h.types, h.definitions.defineFunction hs ho, h.locals⟩
  recordLocal h _ _ _ _ _ _ hv _ hl := ⟨h.types, h.definitions, h.locals.declare hv hl⟩

namespace LocsIn

variable (h : u.LocsIn L)
include h

theorem linkedLocals (function : Stamp) (symbol : Option Symbol) :
    (u.linkedLocals function symbol).LocsIn L := by
  cases symbol with
  | none => exact h.locals
  | some symbol => exact h.locals.linkSymbol function symbol

theorem boundLocals (id : EntryId) (symbol : Symbol) (d : Definition) :
    (u.boundLocals id symbol d).LocsIn L := by
  obtain v | f := d
  · exact h.locals
  · exact h.locals.linkSymbolAll _ symbol

/-- No location is added where a function is entered. -/
theorem enterFunction (function : Stamp) (block : Block) :
    (enterFunction function block u).2.LocsIn L := by
  rcases u.enterFunction_cases function block with ⟨answer, hrun, -⟩ |
    ⟨id, f, x, ids, l, -, hf, henter, hrun⟩
  · rw [hrun]
    exact h
  · rw [hrun]
    refine ⟨h.types, ?_, (h.linkedLocals function f.symbol).enter henter⟩
    exact h.definitions.replace hf rfl

theorem enterChild (function : Stamp) (parent block : Block) :
    (enterChild function parent block u).2.LocsIn L := by
  rcases u.enterChild_cases function parent block with ⟨answer, hrun, -⟩ |
    ⟨parentId, x, children, ids, l, l', -, henter, -, hl', hrun⟩
  · rw [hrun]
    exact h
  · rw [hrun]
    have hentered := h.locals.enter henter
    rcases hl' with rfl | rfl
    · exact ⟨h.types, h.definitions, hentered⟩
    · exact ⟨h.types, h.definitions, hentered.putScope parentId _⟩

theorem bindSymbol (stamp : Stamp) (symbol : Symbol) : (bindSymbol stamp symbol u).2.LocsIn L := by
  rcases u.bindSymbol_cases stamp symbol with hrun | ⟨id, d, -, hd, hrun⟩
  · rw [hrun]
    exact h
  · rw [hrun]
    exact ⟨h.types, h.definitions.withSymbol hd symbol, h.boundLocals id symbol d⟩

theorem bindLocal (stamp : Stamp) (symbol : Symbol) : (bindLocal stamp symbol u).2.LocsIn L := by
  unfold CompilationUnit.bindLocal
  split
  · exact h
  · next hl => exact ⟨h.types, h.definitions, h.locals.bindSymbol hl⟩

end LocsIn

theorem attach_locsIn (function stamp : Stamp) (block : Block) :
    Preserves (LocsIn L) (attach function stamp block) := by
  refine Ensures.bind .get fun u => ?_
  split
  · refine .onLocals (fun u b ids l h ho => ?_) fun _ h => h
    obtain ⟨⟨b, l⟩, ho, heq⟩ := Definitions.map_eq_ok_iff.1 ho
    cases heq
    exact ⟨h.types, h.definitions, h.locals.attach ho⟩
  · exact .pure fun _ h => h

theorem bindCode_locsIn (symbol : Symbol) (code : CodeRange) :
    Preserves (LocsIn L) (bindCode symbol code) :=
  .changeDefinitions (fun _ _ _ h ho => ⟨h.types, h.definitions.bindCode ho, h.locals⟩) fun _ h => h

theorem bindParameter_locsIn (function param : Stamp) (symbol : Symbol) :
    Preserves (LocsIn L) (bindParameter function param symbol) :=
  .changeDefinitions (fun _ _ _ h ho => ⟨h.types, h.definitions.bindParameter ho, h.locals⟩)
    fun _ h => h

variable {σ : Type}

/-- The only location that an operation may store is the one that comes with it. -/
theorem LocsIn.apply (h : u.LocsIn L) {op : Operation σ} (hop : ∀ l, op.loc? = some l → L l) :
    (u.apply op).2.LocsIn L := by
  cases op with
  | restart name => exact locsIn_of_isEmpty (u.isEmpty_restart name)
  | freshId | setSectionStart | setSectionStop | enumerate | addLabel | markPrinted =>
    exact ⟨h.types, h.definitions, h.locals⟩
  | internType t => exact h.internType t
  | updateType id update =>
    have hlearns := updateType_learns locsIn_stable update.references id (List.Subset.refl _) hop
    exact (hlearns.answer _).apply h
  | declare d => exact ((declare_stable locsIn_stable d (hop _ rfl)).answer _).apply h
  | declareLocal d => exact ((declareLocal_stable locsIn_stable d (hop _ rfl)).answer _).apply h
  | enterFunction function block =>
    rw [apply_snd u rfl]
    exact h.enterFunction function block
  | enterChild function parent block =>
    rw [apply_snd u rfl]
    exact h.enterChild function parent block
  | attach function stamp block => exact ((attach_locsIn function stamp block).answer _).apply h
  | bindSymbol stamp symbol => exact h.bindSymbol stamp symbol
  | bindLocal stamp symbol => exact h.bindLocal stamp symbol
  | bindCode symbol code => exact ((bindCode_locsIn symbol code).answer _).apply h
  | bindParameter function param symbol =>
    exact ((bindParameter_locsIn function param symbol).answer _).apply h
  | emit e =>
    obtain ⟨lifetimes, heq⟩ := u.emit_elsewhere e
    have happly : (u.apply (.emit e : Operation σ)).2 = (CompilationUnit.emit e u).2 := rfl
    rw [happly, heq]
    exact ⟨h.types, h.definitions, h.locals⟩

end CompilationUnit

end DebugInfo
