import DebugInfo.CompilationUnit.Globals
import DebugInfo.Proofs.Locals.Cases

/-!
# Ids in the table of locals

A table of locals is `Linked` if its ids come from the supply, its indices of scopes lead to scopes
and its indices of variables to variables, and every child of a scope is there.  The types of
variables are in another table, so which ids are those of types is a parameter.

Whatever is done, scopes stay scopes and variables stay variables.
-/

namespace DebugInfo

def Local.isScope : Local → Bool
  | .variable _ => false
  | .scope _ => true

namespace Locals

def IsScope (l : Locals) (id : EntryId) : Prop := ∃ children, l.get? id = some (.scope children)

def IsVariable (l : Locals) (id : EntryId) : Prop := ∃ v, l.get? id = some (.variable v)

structure Linked (has : EntryId → Prop) (ids : IdSupply) (l : Locals) : Prop where
  below : ∀ id e, l.get? id = some e → id.raw < ids.allocated
  typed : ∀ id v, l.get? id = some (.variable v) → has v.type
  children : ∀ id children, l.get? id = some (.scope children) →
    ∀ child ∈ children, ∃ e, l.get? child = some e
  scopesByStamp : ∀ stamp block x, l.scopeByStamp? stamp block = some x → l.IsScope x
  scopesBySymbol : ∀ symbol block x, l.scopeBySymbol? symbol block = some x → l.IsScope x
  variablesByStamp : ∀ stamp x, l.idByStamp? stamp = some x → l.IsVariable x
  variablesBySymbol : ∀ symbol x, l.idBySymbol? symbol = some x → l.IsVariable x

theorem linked_empty (has : EntryId → Prop) (ids : IdSupply) : Linked has ids ∅ := by
  constructor <;> simp

/-- Entries stay of their kind. -/
structure KeepsKinds (l l' : Locals) : Prop where
  scopes : ∀ x, l.IsScope x → l'.IsScope x
  vars : ∀ x, l.IsVariable x → l'.IsVariable x

theorem KeepsKinds.refl (l : Locals) : KeepsKinds l l := ⟨fun _ h => h, fun _ h => h⟩

theorem KeepsKinds.trans {l₁ l₂ l₃ : Locals} (h : KeepsKinds l₁ l₂) (h' : KeepsKinds l₂ l₃) :
    KeepsKinds l₁ l₃ :=
  ⟨fun x hx => h'.scopes x (h.scopes x hx), fun x hx => h'.vars x (h.vars x hx)⟩

/-- What keeps its kind is still there. -/
theorem KeepsKinds.exists {l l' : Locals} (h : KeepsKinds l l') {x : EntryId} {e : Local}
    (he : l.get? x = some e) : ∃ e', l'.get? x = some e' := by
  obtain v | children := e
  · obtain ⟨v', hv'⟩ := h.vars x ⟨v, he⟩
    exact ⟨_, hv'⟩
  · obtain ⟨children', hc'⟩ := h.scopes x ⟨children, he⟩
    exact ⟨_, hc'⟩

/-- The table stays linked, and its entries stay of their kind. -/
structure Continues (has : EntryId → Prop) (ids : IdSupply) (l : Locals) (ids' : IdSupply)
    (l' : Locals) : Prop where
  allocated : ids.allocated ≤ ids'.allocated
  linked : Linked has ids' l'
  kinds : KeepsKinds l l'

variable {has : EntryId → Prop} {ids ids' : IdSupply} {l l' : Locals} {id x : EntryId} {e : Local}
  {stamp function : Stamp} {symbol : Symbol} {block : Block}

theorem Continues.trans {l'' : Locals} {ids'' : IdSupply} (h : Continues has ids l ids' l')
    (h' : Continues has ids' l' ids'' l'') : Continues has ids l ids'' l'' :=
  ⟨Nat.le_trans h.allocated h'.allocated, h'.linked, h.kinds.trans h'.kinds⟩

/-- A local may be overwritten with one of its kind. -/
theorem keepsKinds_put (h : ∀ old, l.get? id = some old → old.isScope = e.isScope) :
    KeepsKinds l (l.put id e) := by
  constructor
  · rintro x ⟨children, hx⟩
    rw [IsScope, get?_put]
    split
    · next heq =>
      subst heq
      have hkind := h _ hx
      obtain v | children' := e
      · cases hkind
      · exact ⟨children', rfl⟩
    · exact ⟨children, hx⟩
  · rintro x ⟨v, hx⟩
    rw [IsVariable, get?_put]
    split
    · next heq =>
      subst heq
      have hkind := h _ hx
      obtain v' | children := e
      · exact ⟨v', rfl⟩
      · cases hkind
    · exact ⟨v, hx⟩

namespace Linked

variable (h : Linked has ids l)
include h

theorem mono {has' : EntryId → Prop} (hhas : ∀ t, has t → has' t)
    (hids : ids.allocated ≤ ids'.allocated) : Linked has' ids' l :=
  { h with
    below := fun id e he => Nat.lt_of_lt_of_le (h.below id e he) hids
    typed := fun id v hv => hhas v.type (h.typed id v hv) }

theorem continues : Continues has ids l ids l := ⟨Nat.le_refl _, h, .refl l⟩

/-! ## Single changes -/

/-- An entry is new, or replaces one of its kind. -/
theorem put (hids : ids.allocated ≤ ids'.allocated) (hid : id.raw < ids'.allocated)
    (hkind : ∀ old, l.get? id = some old → old.isScope = e.isScope)
    (hvariable : ∀ v, e = .variable v → has v.type)
    (hscope : ∀ children, e = .scope children → ∀ child ∈ children, ∃ e', l.get? child = some e') :
    Continues has ids l ids' (l.put id e) := by
  have hkinds := keepsKinds_put hkind
  refine ⟨hids, ?_, hkinds⟩
  constructor
  · intro id' e' he
    rw [get?_put] at he
    split at he
    · next heq => exact heq ▸ hid
    · exact Nat.lt_of_lt_of_le (h.below id' e' he) hids
  · intro id' v hv
    rw [get?_put] at hv
    split at hv
    · exact hvariable v (Option.some.inj hv)
    · exact h.typed id' v hv
  · intro id' children hchildren child hmem
    rw [get?_put] at hchildren
    have hchild : ∃ e', l.get? child = some e' := by
      split at hchildren
      · exact hscope children (Option.some.inj hchildren) child hmem
      · exact h.children id' children hchildren child hmem
    obtain ⟨e', he'⟩ := hchild
    exact hkinds.exists he'
  · exact fun stamp block x hx => hkinds.scopes x (h.scopesByStamp stamp block x hx)
  · exact fun symbol block x hx => hkinds.scopes x (h.scopesBySymbol symbol block x hx)
  · exact fun stamp x hx => hkinds.vars x (h.variablesByStamp stamp x hx)
  · exact fun symbol x hx => hkinds.vars x (h.variablesBySymbol symbol x hx)

theorem ne_fresh (he : l.get? id = some e) : ids.fresh.1 ≠ id := by
  rintro rfl
  exact Nat.lt_irrefl _ (h.below _ e he)

theorem get?_fresh : l.get? ids.fresh.1 = none :=
  Option.eq_none_iff_forall_ne_some.2 fun _ he => h.ne_fresh he rfl

theorem not_isScope_fresh : ¬ l.IsScope ids.fresh.1 := fun ⟨_, hscope⟩ => h.ne_fresh hscope rfl

theorem not_isVariable_fresh : ¬ l.IsVariable ids.fresh.1 := fun ⟨_, hv⟩ => h.ne_fresh hv rfl

/-- A variable whose type is there, or a scope with nothing in it, may be put under the next id. -/
theorem putFresh (e : Local) (hvariable : ∀ v, e = .variable v → has v.type)
    (hscope : ∀ children, e = .scope children → children = []) :
    Continues has ids l ids.fresh.2 (l.put ids.fresh.1 e) := by
  refine h.put (Nat.le_succ _) (Nat.lt_succ_self _) ?_ hvariable ?_
  · intro old hold
    exact absurd rfl (h.ne_fresh hold)
  · intro children heq child hmem
    rw [hscope children heq] at hmem
    cases hmem

/-- A scope gets one more child. -/
theorem addChild {children : List EntryId} (hchildren : l.get? id = some (.scope children))
    {child : EntryId} (hchild : ∃ e, l.get? child = some e) :
    Continues has ids l ids (l.put id (.scope (children ++ [child]))) := by
  refine h.put (Nat.le_refl _) (h.below id _ hchildren) ?_ (fun v heq => nomatch heq) ?_
  · intro old hold
    rw [hchildren] at hold
    cases hold
    rfl
  · intro children' heq child' hmem
    cases heq
    rcases List.mem_append.1 hmem with hmem | hmem
    · exact h.children id children hchildren child' hmem
    · rw [List.mem_singleton.1 hmem]
      exact hchild

theorem addStamp (hid : l.IsVariable id) (stamp : Stamp) : Linked has ids (l.addStamp stamp id) :=
  { h with
    variablesByStamp := fun stamp' x hx => by
      rw [idByStamp?_addStamp] at hx
      split at hx
      · cases hx
        exact hid
      · exact h.variablesByStamp stamp' x hx }

theorem addSymbol (hid : l.IsVariable id) (symbol : Symbol) :
    Linked has ids (l.addSymbol symbol id) :=
  { h with
    variablesBySymbol := fun symbol' x hx => by
      rw [idBySymbol?_addSymbol] at hx
      split at hx
      · cases hx
        exact hid
      · exact h.variablesBySymbol symbol' x hx }

/-! ## Operations -/

/-- Nothing dangles after a local is declared. -/
theorem declare {v : LocalVariable} (hv : has v.type)
    (ho : l.declare ids stamp v = (id, ids', l')) : Continues has ids l ids' l' := by
  rcases declare_cases ho with ⟨-, rfl, rfl⟩ | ⟨-, rfl, rfl, rfl⟩
  · exact h.continues
  · have hvariable (v' : LocalVariable) (heq : Local.variable v = .variable v') : has v'.type := by
      cases heq
      exact hv
    obtain ⟨hids, hlinked, hkinds⟩ := h.putFresh (.variable v) hvariable fun children heq => nomatch heq
    refine ⟨hids, hlinked.addStamp ?_ stamp, hkinds.scopes, hkinds.vars⟩
    exact ⟨v, by rw [get?_put, if_pos rfl]⟩

theorem bindSymbol (ho : l.bindSymbol stamp symbol = some (id, l')) :
    Continues has ids l ids l' := by
  obtain ⟨v, -, hv, rfl⟩ := bindSymbol_cases ho
  obtain ⟨hids, hlinked, hkinds⟩ : Continues has ids l ids
      (l.put id (.variable { v with symbol := some symbol })) := by
    refine h.put (Nat.le_refl _) (h.below id _ hv) ?_ ?_ (fun children heq => nomatch heq)
    · intro old hold
      rw [hv] at hold
      cases hold
      rfl
    · intro v' heq
      cases heq
      exact h.typed id v hv
  exact ⟨hids, hlinked.addSymbol (hkinds.vars id ⟨v, hv⟩) symbol, hkinds.scopes,
    hkinds.vars⟩

/-- Nothing dangles after a variable goes into a scope. -/
theorem attach {b : Bool} (ho : l.attach function stamp block = .ok (b, l')) :
    Continues has ids l ids l' := by
  rcases attach_cases ho with rfl | ⟨var, scope, children, hvar, -, hchildren, rfl⟩
  · exact h.continues
  · obtain ⟨v, hv⟩ := h.variablesByStamp stamp var hvar
    exact h.addChild hchildren ⟨_, hv⟩

theorem addScope : Continues has ids l ids.fresh.2 (l.addScope function block ids.fresh.1) := by
  obtain ⟨hids, hlinked, hkinds⟩ := h.putFresh (.scope []) (fun v heq => nomatch heq)
    fun children heq => (Local.scope.inj heq).symm
  have hscope : (l.addScope function block ids.fresh.1).IsScope ids.fresh.1 :=
    ⟨[], by rw [get?_addScope, if_pos rfl]⟩
  refine ⟨hids, ?_, hkinds.scopes, hkinds.vars⟩
  constructor
  · exact hlinked.below
  · exact hlinked.typed
  · exact hlinked.children
  · intro stamp block' x hx
    rw [scopeByStamp?_addScope] at hx
    split at hx
    · cases hx
      exact hscope
    · exact hkinds.scopes x (h.scopesByStamp stamp block' x hx)
  · intro symbol block' x hx
    rw [scopeBySymbol?_addScope] at hx
    split at hx
    · cases hx
      exact hscope
    · exact hkinds.scopes x (h.scopesBySymbol symbol block' x hx)
  · exact hlinked.variablesByStamp
  · exact hlinked.variablesBySymbol

/-- Nothing dangles after a scope is entered, and what is answered is a scope. -/
theorem enter (ho : l.enter ids function block = (x, ids', l')) :
    Continues has ids l ids' l' ∧ l'.IsScope x := by
  rcases enter_cases ho with ⟨hx, rfl, rfl⟩ | ⟨-, rfl, rfl, rfl⟩
  · exact ⟨h.continues, h.scopesByStamp function block x hx⟩
  · exact ⟨h.addScope, [], by rw [get?_addScope, if_pos rfl]⟩

theorem enterChild {parent : Block} {answer : Option EntryId}
    (ho : l.enterChild ids function parent block = .ok (answer, ids', l')) :
    Continues has ids l ids' l' := by
  rcases enterChild_cases ho with ⟨-, -, rfl, rfl⟩ |
    ⟨parentId, x, children, entered, -, -, henter, hchildren, hl'⟩
  · exact h.continues
  · obtain ⟨hentered, y, hy⟩ := h.enter henter
    rcases hl' with ⟨-, rfl⟩ | ⟨-, rfl⟩
    · exact hentered
    · exact hentered.trans (hentered.linked.addChild hchildren ⟨_, hy⟩)

theorem linkSymbol (function : Stamp) (symbol : Symbol) :
    Continues has ids l ids (l.linkSymbol function symbol).2 := by
  obtain ⟨m, heq, hm⟩ := linkSymbol_eq l function symbol
  rw [heq]
  refine ⟨Nat.le_refl _, { h with scopesBySymbol := fun symbol' block x hx => ?_ },
    fun _ h => h, fun _ h => h⟩
  have hx := (hm symbol' block).symm.trans hx
  split at hx
  · rcases Option.or_eq_some_iff.1 hx with hx | ⟨-, hx⟩
    · exact h.scopesByStamp function block x hx
    · exact h.scopesBySymbol symbol' block x hx
  · exact h.scopesBySymbol symbol' block x hx

theorem linkSymbolAll (stamps : List Stamp) (symbol : Symbol) :
    Continues has ids l ids (CompilationUnit.linkSymbolAll stamps symbol l) := by
  induction stamps generalizing l with
  | nil => exact h.continues
  | cons stamp stamps ih =>
    have hlink := h.linkSymbol stamp symbol
    exact hlink.trans (ih hlink.linked)

end Linked

end Locals

end DebugInfo
