import DebugInfo.Proofs.Locals.Run

/-!
# The scopes of a function as trees

A scope lists what is in it: variables, each as often as it was attached, and other scopes.  A block
that is entered by itself gets a scope that is in no other, a root; a block that is entered inside
of another one gets a root as well, which then goes into the scope of that block.

A scope is older than what is inside of it, so there is no way back.
-/

namespace DebugInfo

/-- The entries that are in an entry; a variable has none. -/
def Local.children : Local → List EntryId
  | .variable _ => []
  | .scope children => children

namespace Locals

/-! ## Children -/

def childrenOf (l : Locals) (id : EntryId) : List EntryId := (l.get? id).elim [] (·.children)

/-- The second entry is in the first one. -/
def Child (l : Locals) (parent id : EntryId) : Prop := id ∈ l.childrenOf parent

/-- The scope is that of a block of the function. -/
def Owns (l : Locals) (function : Stamp) (x : EntryId) : Prop :=
  ∃ block, l.scopeByStamp? function block = some x

variable {l l' : Locals} {ids ids' : IdSupply} {function stamp : Stamp} {block : Block}
  {p x y : EntryId}

theorem childrenOf_of_get? {children : List EntryId} (h : l.get? p = some (.scope children)) :
    l.childrenOf p = children := by
  rw [childrenOf, h]
  rfl

theorem childrenOf_of_not_isScope (h : ¬ l.IsScope p) : l.childrenOf p = [] := by
  unfold childrenOf
  rcases hp : l.get? p with _ | v | children
  · rfl
  · rfl
  · exact absurd ⟨children, hp⟩ h

theorem Child.isScope (h : l.Child p x) : l.IsScope p := by
  refine Classical.byContradiction fun hp => ?_
  rw [Child, childrenOf_of_not_isScope hp] at h
  cases h

theorem Child.get? (hs : Linked (fun _ => True) ids l) (h : l.Child p x) :
    ∃ e, l.get? x = some e := by
  obtain ⟨children, hp⟩ := h.isScope
  rw [Child, childrenOf_of_get? hp] at h
  exact hs.children p children hp x h

theorem not_isScope_of_isVariable (h : l.IsVariable x) : ¬ l.IsScope x := by
  rintro ⟨children, hx⟩
  obtain ⟨v, hv⟩ := h
  cases hv.symm.trans hx

/-- What is under a fresh id is nothing yet, and in nothing. -/
theorem not_child_fresh (hs : Linked (fun _ => True) ids l) : ¬ l.Child p ids.fresh.1 := by
  intro h
  obtain ⟨e, he⟩ := h.get? hs
  exact hs.ne_fresh he rfl

/-! ## Trees -/

/-- The scopes form trees with these roots. -/
structure Tree (roots : List EntryId) (l : Locals) : Prop where
  older : ∀ p x, l.IsScope x → l.Child p x → p.raw < x.raw
  once : ∀ p x, l.IsScope x → (l.childrenOf p).count x ≤ 1
  parent : ∀ p q x, l.IsScope x → l.Child p x → l.Child q x → p = q
  owned : ∀ x, l.IsScope x → ∃ function, l.Owns function x
  owner : ∀ function function' x, l.Owns function x → l.Owns function' x → function = function'
  inherits : ∀ p x function, l.IsScope x → l.Child p x → l.Owns function p → l.Owns function x
  origin : ∀ x, l.IsScope x → x ∈ roots ∨ ∃ p, l.Child p x
  root : ∀ x ∈ roots, l.IsScope x ∧ ∀ p, ¬ l.Child p x

theorem tree_empty : Tree [] ∅ := by
  constructor <;> simp [IsScope, Owns]

/-! ### What does not touch the scopes -/

/-- The scopes are the same ones, and each is in the same scopes. -/
structure SameTree (l l' : Locals) : Prop where
  scopes : ∀ x, l'.IsScope x ↔ l.IsScope x
  count : ∀ p x, l.IsScope x → (l'.childrenOf p).count x = (l.childrenOf p).count x
  stamps : l'.scopeByStamp? = l.scopeByStamp?

theorem SameTree.of_entries_eq (hentries : l'.entries = l.entries)
    (hstamps : l'.scopesByStamp = l.scopesByStamp) : SameTree l l' := by
  have hget : l'.get? = l.get? := by
    funext id
    rw [Locals.get?, hentries, Locals.get?]
  refine ⟨fun x => ?_, fun p x _ => ?_, ?_⟩
  · rw [IsScope, hget, IsScope]
  · rw [childrenOf, hget, childrenOf]
  · funext function block
    rw [scopeByStamp?, hstamps, scopeByStamp?]

/-- Where there is no scope, a variable may be put. -/
theorem sameTree_putVariable (h : ¬ l.IsScope x) (v : LocalVariable) :
    SameTree l (l.put x (.variable v)) := by
  refine ⟨fun y => ?_, fun p y _ => ?_, rfl⟩
  · by_cases heq : x = y
    · subst heq
      exact iff_of_false (by simp [IsScope, get?_put]) h
    · simp [IsScope, get?_put, heq]
  · rw [childrenOf, get?_put]
    split
    · next heq =>
      rw [← heq, childrenOf_of_not_isScope h]
      rfl
    · rfl

theorem childrenOf_putScope (l : Locals) (p q : EntryId) (children : List EntryId) :
    (l.put p (.scope children)).childrenOf q = if p = q then children else l.childrenOf q := by
  unfold childrenOf
  rw [get?_put]
  split <;> rfl

theorem isScope_putScope (hp : l.IsScope p) (children : List EntryId) (x : EntryId) :
    (l.put p (.scope children)).IsScope x ↔ l.IsScope x := by
  rw [IsScope, get?_put]
  split
  · next heq => exact iff_of_true ⟨children, rfl⟩ (heq ▸ hp)
  · rfl

theorem count_childrenOf_attach {children : List EntryId} (hp : l.get? p = some (.scope children))
    (x q y : EntryId) :
    ((l.put p (.scope (children ++ [x]))).childrenOf q).count y =
      (l.childrenOf q).count y + if p = q ∧ x = y then 1 else 0 := by
  rw [childrenOf_putScope]
  by_cases hq : p = q
  · subst hq
    rw [if_pos rfl, childrenOf_of_get? hp, List.count_append, List.count_singleton]
    simp
  · simp [hq]

/-- Variables may be attached. -/
theorem sameTree_attachVariable {children : List EntryId}
    (hp : l.get? p = some (.scope children)) (hx : l.IsVariable x) :
    SameTree l (l.put p (.scope (children ++ [x]))) := by
  refine ⟨isScope_putScope ⟨children, hp⟩ _, fun q y hy => ?_, rfl⟩
  have hne : x ≠ y := by
    rintro rfl
    exact not_isScope_of_isVariable hx hy
  rw [count_childrenOf_attach hp, if_neg fun heq => hne heq.2, Nat.add_zero]

theorem SameTree.child_iff (h : SameTree l l') (hx : l.IsScope x) : l'.Child p x ↔ l.Child p x := by
  rw [Child, Child, ← List.count_pos_iff, ← List.count_pos_iff, h.count p x hx]

theorem SameTree.owns_iff (h : SameTree l l') : l'.Owns function x ↔ l.Owns function x := by
  rw [Owns, h.stamps, Owns]

variable {roots : List EntryId}

theorem Tree.of_same (h : Tree roots l) (hs : SameTree l l') : Tree roots l' where
  older p x hx hc := by
    have hx := (hs.scopes x).1 hx
    exact h.older p x hx ((hs.child_iff hx).1 hc)
  once p x hx := by
    have hx := (hs.scopes x).1 hx
    rw [hs.count p x hx]
    exact h.once p x hx
  parent p q x hx hc hc' := by
    have hx := (hs.scopes x).1 hx
    exact h.parent p q x hx ((hs.child_iff hx).1 hc) ((hs.child_iff hx).1 hc')
  owned x hx := by
    obtain ⟨function, hf⟩ := h.owned x ((hs.scopes x).1 hx)
    exact ⟨function, hs.owns_iff.2 hf⟩
  owner function function' x hf hf' :=
    h.owner function function' x (hs.owns_iff.1 hf) (hs.owns_iff.1 hf')
  inherits p x function hx hc hf := by
    have hx := (hs.scopes x).1 hx
    exact hs.owns_iff.2 (h.inherits p x function hx ((hs.child_iff hx).1 hc) (hs.owns_iff.1 hf))
  origin x hx := by
    have hx := (hs.scopes x).1 hx
    exact (h.origin x hx).imp_right fun ⟨p, hp⟩ => ⟨p, (hs.child_iff hx).2 hp⟩
  root x hx := by
    obtain ⟨hscope, hparent⟩ := h.root x hx
    exact ⟨(hs.scopes x).2 hscope, fun p hp => hparent p ((hs.child_iff hscope).1 hp)⟩

/-! ### A new root -/

section AddScope

variable (hs : Linked (fun _ => True) ids l)
include hs

theorem childrenOf_addScope (p : EntryId) :
    (l.addScope function block ids.fresh.1).childrenOf p = l.childrenOf p := by
  rw [childrenOf, get?_addScope, childrenOf]
  split
  · next heq =>
    rw [← heq, hs.get?_fresh]
    rfl
  · rfl

omit hs in
theorem isScope_addScope (x : EntryId) :
    (l.addScope function block ids.fresh.1).IsScope x ↔ x = ids.fresh.1 ∨ l.IsScope x := by
  rw [IsScope, get?_addScope]
  split
  · next heq => exact iff_of_true ⟨[], rfl⟩ (.inl heq.symm)
  · next hne => exact (or_iff_right fun heq => hne heq.symm).symm

omit hs in
theorem owns_addScope (hnew : l.scopeByStamp? function block = none) (function' : Stamp)
    (x : EntryId) :
    (l.addScope function block ids.fresh.1).Owns function' x ↔
      function' = function ∧ x = ids.fresh.1 ∨ l.Owns function' x := by
  constructor
  · rintro ⟨block', hx⟩
    rw [scopeByStamp?_addScope] at hx
    split at hx
    · next heq =>
      cases hx
      exact .inl ⟨heq.1.symm, rfl⟩
    · exact .inr ⟨block', hx⟩
  · rintro (⟨rfl, rfl⟩ | ⟨block', hx⟩)
    · exact ⟨block, by rw [scopeByStamp?_addScope, if_pos ⟨rfl, rfl⟩]⟩
    · refine ⟨block', ?_⟩
      rw [scopeByStamp?_addScope, if_neg, hx]
      rintro ⟨rfl, rfl⟩
      cases hnew.symm.trans hx

theorem not_owns_fresh : ¬ l.Owns function ids.fresh.1 := by
  rintro ⟨block, hx⟩
  exact hs.not_isScope_fresh (hs.scopesByStamp function block _ hx)

theorem child_addScope_iff :
    (l.addScope function block ids.fresh.1).Child p x ↔ l.Child p x := by
  rw [Child, childrenOf_addScope hs, Child]

/-- A scope that is in another one is not the new one. -/
theorem isScope_of_child (hx : (l.addScope function block ids.fresh.1).IsScope x)
    (hc : l.Child p x) : l.IsScope x := by
  rcases (isScope_addScope x).1 hx with rfl | hx
  · exact absurd hc (not_child_fresh hs)
  · exact hx

/-- A block that was not entered before gets a scope that is in no other. -/
theorem Tree.addScope (h : Tree roots l) (hnew : l.scopeByStamp? function block = none) :
    Tree (ids.fresh.1 :: roots) (l.addScope function block ids.fresh.1) where
  older p x hx hc := by
    have hc := (child_addScope_iff hs).1 hc
    exact h.older p x (isScope_of_child hs hx hc) hc
  once p x hx := by
    rw [childrenOf_addScope hs]
    rcases (isScope_addScope x).1 hx with rfl | hx
    · rw [List.count_eq_zero.2 (not_child_fresh hs)]
      exact Nat.zero_le 1
    · exact h.once p x hx
  parent p q x hx hc hc' := by
    have hc := (child_addScope_iff hs).1 hc
    exact h.parent p q x (isScope_of_child hs hx hc) hc ((child_addScope_iff hs).1 hc')
  owned x hx := by
    rcases (isScope_addScope x).1 hx with rfl | hx
    · exact ⟨function, (owns_addScope hnew _ _).2 (.inl ⟨rfl, rfl⟩)⟩
    · obtain ⟨function', hf⟩ := h.owned x hx
      exact ⟨function', (owns_addScope hnew _ _).2 (.inr hf)⟩
  owner f f' x hf hf' := by
    rcases (owns_addScope hnew _ _).1 hf with ⟨rfl, rfl⟩ | hold <;>
      rcases (owns_addScope hnew _ _).1 hf' with ⟨rfl, heq⟩ | hold'
    · rfl
    · exact absurd hold' (not_owns_fresh hs)
    · exact absurd (heq ▸ hold) (not_owns_fresh hs)
    · exact h.owner f f' x hold hold'
  inherits p x f hx hc hf := by
    have hc := (child_addScope_iff hs).1 hc
    rcases (owns_addScope hnew _ _).1 hf with ⟨-, rfl⟩ | hf
    · exact absurd hc.isScope hs.not_isScope_fresh
    · have hx := isScope_of_child hs hx hc
      exact (owns_addScope hnew _ _).2 (.inr (h.inherits p x f hx hc hf))
  origin x hx := by
    rcases (isScope_addScope x).1 hx with rfl | hx
    · exact .inl List.mem_cons_self
    · refine (h.origin x hx).imp (List.mem_cons_of_mem _) fun ⟨p, hp⟩ => ?_
      exact ⟨p, (child_addScope_iff hs).2 hp⟩
  root x hx := by
    rcases List.mem_cons.1 hx with rfl | hx
    · refine ⟨(isScope_addScope _).2 (.inl rfl), fun p hp => ?_⟩
      exact not_child_fresh hs ((child_addScope_iff hs).1 hp)
    · obtain ⟨hscope, hparent⟩ := h.root x hx
      refine ⟨(isScope_addScope x).2 (.inr hscope), fun p hp => ?_⟩
      exact hparent p ((child_addScope_iff hs).1 hp)

end AddScope

/-! ### A root that goes into another scope -/

section Adopt

variable {children : List EntryId} (hp : l.get? p = some (.scope children))
include hp

theorem child_attach_iff {q : EntryId} :
    (l.put p (.scope (children ++ [x]))).Child q y ↔ l.Child q y ∨ p = q ∧ x = y := by
  rw [Child, Child, ← List.count_pos_iff, ← List.count_pos_iff, count_childrenOf_attach hp]
  split
  · next heq => exact iff_of_true (Nat.succ_pos _) (.inr heq)
  · next hne => exact (or_iff_left hne).symm

/-- A root goes into an older scope of the same function. -/
theorem Tree.adopt (h : Tree (x :: roots) l) (hx : x ∉ roots) (hlt : p.raw < x.raw)
    (hfp : l.Owns function p) (hfx : l.Owns function x) :
    Tree roots (l.put p (.scope (children ++ [x]))) := by
  obtain ⟨-, hxparent⟩ := h.root x List.mem_cons_self
  have hscope (y : EntryId) := isScope_putScope ⟨children, hp⟩ (children ++ [x]) y
  exact {
    older := by
      intro q y hy hc
      rcases (child_attach_iff hp).1 hc with hc | ⟨rfl, rfl⟩
      · exact h.older q y ((hscope y).1 hy) hc
      · exact hlt
    once := by
      intro q y hy
      rw [count_childrenOf_attach hp]
      split
      · next heq =>
        have hzero : (l.childrenOf q).count y = 0 := List.count_eq_zero.2 (heq.2 ▸ hxparent q)
        exact Nat.le_of_eq (congrArg (· + 1) hzero)
      · exact h.once q y ((hscope y).1 hy)
    parent := by
      intro q q' y hy hc hc'
      rcases (child_attach_iff hp).1 hc with hold | ⟨rfl, rfl⟩ <;>
        rcases (child_attach_iff hp).1 hc' with hold' | ⟨rfl, heq⟩
      · exact h.parent q q' y ((hscope y).1 hy) hold hold'
      · exact absurd (heq ▸ hold) (hxparent q)
      · exact absurd hold' (hxparent q')
      · rfl
    owned := fun y hy => h.owned y ((hscope y).1 hy)
    owner := h.owner
    inherits := by
      intro q y f hy hc hf
      rcases (child_attach_iff hp).1 hc with hc | ⟨rfl, rfl⟩
      · exact h.inherits q y f ((hscope y).1 hy) hc hf
      · rw [h.owner f function p hf hfp]
        exact hfx
    origin := by
      intro y hy
      rcases h.origin y ((hscope y).1 hy) with hmem | ⟨q, hq⟩
      · rcases List.mem_cons.1 hmem with rfl | hmem
        · exact .inr ⟨p, (child_attach_iff hp).2 (.inr ⟨rfl, rfl⟩)⟩
        · exact .inl hmem
      · exact .inr ⟨q, (child_attach_iff hp).2 (.inl hq)⟩
    root := by
      intro y hy
      obtain ⟨hyscope, hyparent⟩ := h.root y (List.mem_cons_of_mem x hy)
      refine ⟨(hscope y).2 hyscope, fun q hc => ?_⟩
      rcases (child_attach_iff hp).1 hc with hc | ⟨-, rfl⟩
      · exact hyparent q hc
      · exact hx hy }

end Adopt

/-! ### Operations -/

theorem Tree.declare (hs : Linked (fun _ => True) ids l) (h : Tree roots l) {v : LocalVariable}
    (ho : l.declare ids stamp v = (x, ids', l')) : Tree roots l' := by
  rcases declare_cases ho with ⟨-, -, rfl⟩ | ⟨-, rfl, -, rfl⟩
  · exact h
  · have hput := h.of_same (sameTree_putVariable hs.not_isScope_fresh v)
    exact hput.of_same (.of_entries_eq rfl rfl)

theorem Tree.attach (hs : Linked (fun _ => True) ids l) (h : Tree roots l) {b : Bool}
    (ho : l.attach function stamp block = .ok (b, l')) : Tree roots l' := by
  rcases attach_cases ho with rfl | ⟨var, scope, children, hvar, -, hchildren, rfl⟩
  · exact h
  · exact h.of_same (sameTree_attachVariable hchildren (hs.variablesByStamp stamp var hvar))

theorem Tree.linkSymbol (h : Tree roots l) (function : Stamp) (symbol : Symbol) :
    Tree roots (l.linkSymbol function symbol).2 := by
  obtain ⟨m, heq, -⟩ := linkSymbol_eq l function symbol
  rw [heq]
  exact h.of_same (.of_entries_eq rfl rfl)

theorem Tree.bindSymbol (h : Tree roots l) {symbol : Symbol}
    (ho : l.bindSymbol stamp symbol = some (x, l')) : Tree roots l' := by
  obtain ⟨v, -, hv, rfl⟩ := bindSymbol_cases ho
  have hput := h.of_same (sameTree_putVariable (not_isScope_of_isVariable ⟨v, hv⟩)
    { v with symbol := some symbol })
  exact hput.of_same (.of_entries_eq rfl rfl)

/-- A block that is entered inside of another one gets a root, which then goes into the scope of the
other block. -/
theorem Tree.enterChild (hs : Linked (fun _ => True) ids l) (h : Tree roots l) {parent : Block}
    {answer : Option EntryId}
    (hnests : ∀ p ∈ l.scopeByStamp? function parent, ∀ x ∈ l.scopeByStamp? function block,
      l.Child p x)
    (ho : l.enterChild ids function parent block = .ok (answer, ids', l')) : Tree roots l' := by
  rcases enterChild_cases ho with ⟨-, -, -, rfl⟩ |
    ⟨p, x, children, entered, hp, -, henter, hchildren, hl'⟩
  · exact h
  · rcases enter_cases henter with ⟨hx, -, rfl⟩ | ⟨hnew, rfl, -, rfl⟩
    · have hmem := hnests p hp x hx
      rw [Child, childrenOf_of_get? hchildren] at hmem
      rcases hl' with ⟨-, rfl⟩ | ⟨hnot, -⟩
      · exact h
      · exact absurd hmem hnot
    · rcases hl' with ⟨hmem, -⟩ | ⟨-, rfl⟩
      · rw [← childrenOf_of_get? hchildren, childrenOf_addScope hs] at hmem
        exact absurd hmem (not_child_fresh hs)
      · have howns (y : EntryId) : (l.addScope function block ids.fresh.1).Owns function y ↔ _ :=
          owns_addScope hnew function y
        have hparent := (howns p).2 (.inr ⟨parent, hp⟩)
        have hfresh := (howns ids.fresh.1).2 (.inl ⟨rfl, rfl⟩)
        refine (h.addScope hs hnew).adopt hchildren ?_ ?_ hparent hfresh
        · intro hmem
          exact hs.not_isScope_fresh (h.root _ hmem).1
        · obtain ⟨_, hscope⟩ := hs.scopesByStamp function parent p hp
          exact hs.below p _ hscope

end Locals

end DebugInfo
