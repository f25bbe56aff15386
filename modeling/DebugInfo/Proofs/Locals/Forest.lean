import Mathlib.Logic.ExistsUnique
import Mathlib.Logic.Relation
import DebugInfo.Proofs.Locals.Tree

/-!
# Runs keep the scopes in trees

The frontend may enter a block as often as it likes, by itself and inside of another block, as long
as a block that is entered inside of another one is new or inside of it already.  Then no scope is
inside of itself or in two others, and from every scope the way out ends at a root of its own
function.
-/

namespace DebugInfo.Locals

variable {l : Locals} {roots : List EntryId} {x y : EntryId}

/-! ## Runs -/

/-- A block that is entered inside of another one has no scope yet, or its scope is in that of the
other block already. -/
def Operation.Nests (l : Locals) : Operation → Prop
  | .enterChild function parent block =>
      ∀ p ∈ l.scopeByStamp? function parent, ∀ x ∈ l.scopeByStamp? function block, l.Child p x
  | _ => True

/-- Each operation of a run nests as it should. -/
def WellNested (s : State) : List Operation → Prop
  | [] => True
  | op :: ops => op.Nests s.2 ∧ WellNested (step s op) ops

instance (l : Locals) (p x : EntryId) : Decidable (l.Child p x) :=
  inferInstanceAs (Decidable (x ∈ l.childrenOf p))

instance (l : Locals) : (op : Operation) → Decidable (op.Nests l)
  | .enterChild function parent block =>
      inferInstanceAs (Decidable (∀ p ∈ l.scopeByStamp? function parent,
        ∀ x ∈ l.scopeByStamp? function block, l.Child p x))
  | .declare .. | .enter .. | .attach .. | .linkSymbol .. | .bindSymbol .. | .skip | .clear .. =>
      .isTrue trivial

instance decidableWellNested (s : State) : (ops : List Operation) → Decidable (WellNested s ops)
  | [] => .isTrue trivial
  | op :: ops =>
    have := decidableWellNested (step s op) ops
    inferInstanceAs (Decidable (_ ∧ _))

/-- The roots after an operation: a block that is entered by itself for the first time gets one. -/
def noteRoot (s : State) (roots : List EntryId) : Operation → List EntryId
  | .enter function block =>
      match s.2.scopeByStamp? function block with
      | some _ => roots
      | none => s.1.fresh.1 :: roots
  | .clear _ => []
  | _ => roots

def rootsFrom (s : State) (roots : List EntryId) : List Operation → List EntryId
  | [] => roots
  | op :: ops => rootsFrom (step s op) (noteRoot s roots op) ops

/-- The scopes that were added by entering a block by itself since the table was last cleared. -/
def rootsOf (ids : IdSupply) (ops : List Operation) : List EntryId := rootsFrom (ids, ∅) [] ops

section Run

variable {s : State} (hs : Sound s)
include hs

theorem step_tree (h : Tree roots s.2) {op : Operation} (hop : op.Nests s.2) :
    Tree (noteRoot s roots op) (step s op).2 := by
  cases op with
  | declare stamp v => exact h.declare hs rfl
  | enter function block =>
    obtain ⟨⟨x, ids, l⟩, ho⟩ : ∃ r, s.2.enter s.1 function block = r := ⟨_, rfl⟩
    simp only [step, noteRoot, ho]
    rcases enter_cases ho with ⟨hx, -, rfl⟩ | ⟨hnew, rfl, -, rfl⟩
    · rw [hx]
      exact h
    · rw [hnew]
      exact h.addScope hs hnew
  | enterChild function parent block =>
    simp only [step, noteRoot]
    split
    · next ho => exact h.enterChild hs hop ho
    · exact h
  | attach function stamp block =>
    simp only [step, noteRoot]
    split
    · next ho => exact h.attach hs ho
    · exact h
  | linkSymbol function symbol => exact h.linkSymbol function symbol
  | bindSymbol stamp symbol =>
    simp only [step, noteRoot]
    split
    · next ho => exact h.bindSymbol ho
    · exact h
  | skip => exact h
  | clear ids => exact tree_empty

theorem runFrom_tree {ops : List Operation} (h : Tree roots s.2) (hops : WellNested s ops) :
    Tree (rootsFrom s roots ops) (runFrom s ops).2 := by
  induction ops generalizing s roots with
  | nil => exact h
  | cons op ops ih => exact ih (step_sound hs op) (step_tree hs h hops.1) hops.2

end Run

/-! ## Ways through the trees -/

theorem Tree.family (h : Tree roots l) {p : EntryId} (hx : l.IsScope x) (hp : l.Child p x)
    (function : Stamp) : l.Owns function p ↔ l.Owns function x := by
  refine ⟨h.inherits p x function hx hp, fun hfx => ?_⟩
  obtain ⟨function', hfp⟩ := h.owned p hp.isScope
  exact h.owner function' function x (h.inherits p x function' hx hp hfp) hfx ▸ hfp

theorem Tree.lt_of_transGen (h : Tree roots l) (hxy : Relation.TransGen l.Child x y)
    (hy : l.IsScope y) : x.raw < y.raw := by
  induction hxy with
  | single hc => exact h.older _ _ hy hc
  | tail _ hc ih => exact Nat.lt_trans (ih hc.isScope) (h.older _ _ hy hc)

theorem Tree.not_transGen (h : Tree roots l) (x : EntryId) : ¬ Relation.TransGen l.Child x x := by
  intro hxx
  obtain ⟨_, hc, -⟩ := Relation.TransGen.head'_iff.1 hxx
  exact Nat.lt_irrefl _ (h.lt_of_transGen hxx hc.isScope)

/-- The way out of a scope ends at the root: all that the scope is in is on the way from the root
to the scope, and belongs to one function. -/
structure EndsAt (l : Locals) (x root : EntryId) : Prop where
  path : Relation.ReflTransGen l.Child root x
  owner : ∀ function, l.Owns function root ↔ l.Owns function x
  onPath : ∀ y, Relation.ReflTransGen l.Child y x → Relation.ReflTransGen l.Child root y

theorem Tree.exists_root (h : Tree roots l) (x : EntryId) (hx : l.IsScope x) :
    ∃ root ∈ roots, l.EndsAt x root := by
  rcases h.origin x hx with hroot | ⟨p, hp⟩
  · refine ⟨x, hroot, .refl, fun _ => .rfl, fun y hy => ?_⟩
    rcases hy.cases_tail with rfl | ⟨p, -, hp⟩
    · exact .refl
    · exact absurd hp ((h.root x hroot).2 p)
  · obtain ⟨root, hroot, hends⟩ := h.exists_root p hp.isScope
    have hpath := hends.path.tail hp
    refine ⟨root, hroot, hpath, fun f => (hends.owner f).trans (h.family hx hp f), fun y hy => ?_⟩
    rcases hy.cases_tail with rfl | ⟨q, hy, hq⟩
    · exact hpath
    · exact hends.onPath y (h.parent q p x hx hq hp ▸ hy)
termination_by x.raw
decreasing_by exact h.older p x hx hp

/-- No scope is inside of itself or occurs twice as a child, and the way out of each one ends at one
of the roots, which are in no scope. -/
structure Forest (roots : List EntryId) (l : Locals) : Prop where
  acyclic : ∀ x, ¬ Relation.TransGen l.Child x x
  once : ∀ p x, l.IsScope x → (l.childrenOf p).count x ≤ 1
  parent : ∀ p q x, l.IsScope x → l.Child p x → l.Child q x → p = q
  owner : ∀ x, l.IsScope x → ∃! function, l.Owns function x
  family : ∀ p x, l.IsScope x → l.Child p x → ∀ function, l.Owns function p ↔ l.Owns function x
  rooted : ∀ x, l.IsScope x → ∃ root ∈ roots, l.EndsAt x root
  root : ∀ x ∈ roots, l.IsScope x ∧ ∀ p, ¬ l.Child p x

theorem Tree.forest (h : Tree roots l) : Forest roots l where
  acyclic := h.not_transGen
  once := h.once
  parent := h.parent
  owner x hx :=
    have ⟨function, hf⟩ := h.owned x hx
    ⟨function, hf, fun function' hf' => h.owner function' function x hf' hf⟩
  family _ _ := h.family
  rooted := h.exists_root
  root := h.root

/-- As long as a block that is entered inside of another one is new or inside of it already, the
scopes form trees, whatever variables are attached to them.  Their roots are the scopes of the
blocks that were entered by themselves. -/
theorem run_forest (ids : IdSupply) (ops : List Operation) (h : WellNested (ids, ∅) ops) :
    Forest (rootsOf ids ops) (run ids ops).2 :=
  (runFrom_tree (s := (ids, ∅)) (linked_empty _ ids) tree_empty h).forest

/-- A function whose outer block has a block in it, with one more inside; a variable is attached
twice to it. -/
theorem run_forest_nested :
    let v : LocalVariable := { name := ⟨1⟩, loc := ⟨⟨2⟩, 1, 1⟩, type := ⟨0⟩, isStatic := false }
    let ops : List Operation :=
      [.enter ⟨1⟩ ⟨0⟩, .enterChild ⟨1⟩ ⟨0⟩ ⟨1⟩, .declare ⟨5⟩ v, .attach ⟨1⟩ ⟨5⟩ ⟨1⟩,
        .attach ⟨1⟩ ⟨5⟩ ⟨1⟩, .enterChild ⟨1⟩ ⟨1⟩ ⟨2⟩, .enterChild ⟨1⟩ ⟨0⟩ ⟨1⟩, .enter ⟨2⟩ ⟨0⟩]
    WellNested ({}, ∅) ops ∧ Forest [⟨4⟩, ⟨0⟩] (run {} ops).2 :=
  have h := by decide +kernel
  ⟨h, run_forest {} _ h⟩

end DebugInfo.Locals
