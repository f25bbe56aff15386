import Mathlib.Data.List.Induction
import DebugInfo.Proofs.Locals.Mirroring
import DebugInfo.Proofs.Scopes.Quiet
import DebugInfo.Proofs.Unit.Cases

/-!
# Scopes of a function

A symbol is bound to a function before or after its blocks are entered, and under a stamp of its own
or another one.  In whatever order this happens, the symbol leads to the scopes that the stamps of
the function lead to, and to no others.

This needs that symbols and functions belong together one to one, and that no block of a function is
entered under two stamps.  What was bound and entered is not all kept in the tables, so a run is
accompanied by a history that says it.
-/

namespace DebugInfo.CompilationUnit

open Definitions (Grounded)

variable {σ : Type}

/-! ## Histories -/

/-- What was bound and entered since the unit was last restarted. -/
structure History where
  bound : List (EntryId × Symbol) := []
  /-- Blocks with the stamps they were entered under, and the functions of these. -/
  entered : List (EntryId × Stamp × Block) := []
deriving DecidableEq

namespace History

/-- A block was entered under a stamp. -/
def enter (h : History) (g : Definitions) (function : Stamp) (block : Block) : History :=
  match g.idByStamp? function with
  | some id => { h with entered := (id, function, block) :: h.entered }
  | none => h

/-- The history after an operation on a unit with these definitions, and its answer. -/
def after (h : History) (g : Definitions) :
    Operation σ → Except TableError Answer → History
  | .restart _, _ => {}
  | .bindSymbol _ symbol, .ok (.id (some id)) => { h with bound := (id, symbol) :: h.bound }
  | .enterFunction function block, .ok (.id (some _)) => h.enter g function block
  | .enterChild function _ block, .ok (.id (some _)) => h.enter g function block
  | _, _ => h

/-- No symbol is bound to two definitions and no definition to two symbols, and no block of a
function is entered under two stamps. -/
structure Disciplined (h : History) : Prop where
  definition : ∀ id id' symbol, (id, symbol) ∈ h.bound → (id', symbol) ∈ h.bound → id = id'
  symbol : ∀ id symbol symbol', (id, symbol) ∈ h.bound → (id, symbol') ∈ h.bound → symbol = symbol'
  stamp : ∀ id stamp stamp' block, (id, stamp, block) ∈ h.entered →
    (id, stamp', block) ∈ h.entered → stamp = stamp'

/-- Nothing is forgotten. -/
structure Sub (h h' : History) : Prop where
  bound : ∀ p ∈ h.bound, p ∈ h'.bound
  entered : ∀ p ∈ h.entered, p ∈ h'.entered

variable {h h' : History}

theorem Sub.refl (h : History) : Sub h h := ⟨fun _ hp => hp, fun _ hp => hp⟩

/-- Fewer events are disciplined if more of them are. -/
theorem Disciplined.mono (hd : h'.Disciplined) (hsub : h.Sub h') : h.Disciplined where
  definition id id' symbol hm hm' := hd.definition id id' symbol (hsub.bound _ hm) (hsub.bound _ hm')
  symbol id symbol symbol' hm hm' := hd.symbol id symbol symbol' (hsub.bound _ hm) (hsub.bound _ hm')
  stamp id stamp stamp' block hm hm' :=
    hd.stamp id stamp stamp' block (hsub.entered _ hm) (hsub.entered _ hm')

theorem sub_bound (h : History) (id : EntryId) (symbol : Symbol) :
    h.Sub { h with bound := (id, symbol) :: h.bound } :=
  ⟨fun _ hp => List.mem_cons_of_mem _ hp, fun _ hp => hp⟩

theorem sub_enter (h : History) (g : Definitions) (function : Stamp) (block : Block) :
    h.Sub (h.enter g function block) := by
  unfold enter
  split
  · exact ⟨fun _ hp => hp, fun _ hp => List.mem_cons_of_mem _ hp⟩
  · exact .refl h

/-- Every operation but a restart only adds to the history. -/
theorem sub_after {op : Operation σ} (hop : ∀ name, op ≠ .restart name) (h : History)
    (g : Definitions) (answer : Except TableError Answer) : h.Sub (h.after g op answer) := by
  unfold after
  split
  · exact absurd rfl (hop _)
  · exact h.sub_bound ..
  · exact h.sub_enter ..
  · exact h.sub_enter ..
  · exact .refl h

/-- An operation that answers no id adds nothing to the history. -/
theorem after_of_no_id {op : Operation σ} (hop : ∀ name, op ≠ .restart name) (h : History)
    (g : Definitions) {answer : Except TableError Answer}
    (hanswer : ∀ x, answer ≠ .ok (.id (some x))) : h.after g op answer = h := by
  unfold after
  split
  · exact absurd rfl (hop _)
  · exact absurd rfl (hanswer _)
  · exact absurd rfl (hanswer _)
  · exact absurd rfl (hanswer _)
  · rfl

/-- Entering a block is recorded with the function that has the stamp. -/
theorem mem_enter (h : History) {g : Definitions} {function : Stamp} {id : EntryId}
    (hid : g.idByStamp? function = some id) (block : Block) :
    (id, function, block) ∈ (h.enter g function block).entered := by
  rw [enter, hid]
  exact List.mem_cons_self

end History

/-! ## Mirrored units -/

/-- The stamp leads to the function under the id. -/
def LeadsTo (u : CompilationUnit) (stamp : Stamp) (id : EntryId) (f : Function) : Prop :=
  u.definitions.idByStamp? stamp = some id ∧ u.definitions.get? id = some (.function f)

structure Mirrored (h : History) (u : CompilationUnit) : Prop where
  grounded : Grounded u.ids u.definitions
  mirroring : u.locals.Mirroring
  /-- Only a binding gives a definition its symbol. -/
  bound : ∀ id d symbol, u.definitions.get? id = some d → d.symbol = some symbol →
    (id, symbol) ∈ h.bound
  /-- Stamps are linked to the symbol of their function. -/
  linked : ∀ stamp symbol, u.locals.symbols[stamp]? = some symbol →
    ∃ id f, u.LeadsTo stamp id f ∧ f.symbol = some symbol
  /-- Blocks are entered under stamps of functions, and these stamps are linked. -/
  entered : ∀ stamp block x, u.locals.scopeByStamp? stamp block = some x →
    ∃ id f, u.LeadsTo stamp id f ∧ (id, stamp, block) ∈ h.entered ∧
      ∀ symbol, f.symbol = some symbol → u.locals.symbols[stamp]? = some symbol

theorem mirrored_of_empty {u : CompilationUnit} (hdefinitions : u.definitions = ∅)
    (hlocals : u.locals = ∅) : Mirrored {} u := by
  constructor
  · rw [hdefinitions]
    exact Definitions.grounded_empty u.ids
  · rw [hlocals]
    exact Locals.mirroring_empty
  · intro id d symbol hd
    rw [hdefinitions, Definitions.get?_empty] at hd
    cases hd
  · intro stamp symbol hs
    rw [hlocals, Locals.symbols_empty] at hs
    cases hs
  · intro stamp block x hx
    rw [hlocals, Locals.scopeByStamp?_empty] at hx
    cases hx

namespace Mirrored

variable {h h' : History} {u u' : CompilationUnit}

theorem mono (hu : Mirrored h u) (hsub : h.Sub h') : Mirrored h' u where
  grounded := hu.grounded
  mirroring := hu.mirroring
  bound id d symbol hd hs := hsub.bound _ (hu.bound id d symbol hd hs)
  linked := hu.linked
  entered stamp block x hx := by
    obtain ⟨id, f, hf, hmem, hlinked⟩ := hu.entered stamp block x hx
    exact ⟨id, f, hf, hsub.entered _ hmem, hlinked⟩

/-- Quiet operations keep a unit mirrored. -/
theorem quiet (hu : Mirrored h u) (hq : Quiet u u') : Mirrored h u' := by
  have hfunction {stamp : Stamp} {id : EntryId} {f : Function} (hf : u.LeadsTo stamp id f) :
      ∃ f', u'.LeadsTo stamp id f' ∧ f'.symbol = f.symbol := by
    obtain ⟨d', hd', hkind, hsymbol⟩ := hq.carries.kept id _ hf.2
    obtain v | f' := d'
    · cases hkind
    · exact ⟨f', ⟨hq.stamps _ _ hf.1, hd'⟩, hsymbol⟩
  constructor
  · exact hq.grounded
  · exact hu.mirroring.of_sameScopes hq.scopes
  · intro id d' symbol hd' hs
    cases hd : u.definitions.get? id with
    | none =>
      rw [hq.carries.added id d' hd hd'] at hs
      cases hs
    | some d =>
      obtain ⟨d'', hd'', -, hsymbol⟩ := hq.carries.kept id d hd
      rw [hd'] at hd''
      cases hd''
      exact hu.bound id d symbol hd (hsymbol.symm.trans hs)
  · intro stamp symbol hs
    rw [hq.scopes.symbols] at hs
    obtain ⟨id, f, hf, hsymbol⟩ := hu.linked stamp symbol hs
    obtain ⟨f', hf', hsame⟩ := hfunction hf
    exact ⟨id, f', hf', hsame.trans hsymbol⟩
  · intro stamp block x hx
    rw [hq.scopes.scopeByStamp?_eq] at hx
    rw [hq.scopes.symbols]
    obtain ⟨id, f, hf, hmem, hlinked⟩ := hu.entered stamp block x hx
    obtain ⟨f', hf', hsame⟩ := hfunction hf
    exact ⟨id, f', hf', hmem, fun symbol hs => hlinked symbol (hsame.symm.trans hs)⟩

/-- The stamps of a definition may be linked to the symbol that was bound to it. -/
theorem linkable (hu : Mirrored h u) (hd : h.Disciplined) {id : EntryId} {symbol : Symbol}
    (hbound : (id, symbol) ∈ h.bound) :
    u.locals.Linkable (fun stamp => u.definitions.idByStamp? stamp = some id) symbol := by
  constructor
  · intro stamp hs
    obtain ⟨id', f, hf, hsymbol⟩ := hu.linked stamp symbol hs
    have hbound' := hu.bound id' _ symbol hf.2 hsymbol
    rw [hd.definition id id' symbol hbound hbound']
    exact hf.1
  · intro stamp symbol' hid hs
    obtain ⟨id', f, hf, hsymbol⟩ := hu.linked stamp symbol' hs
    have hbound' := hu.bound id' _ symbol' hf.2 hsymbol
    cases hid.symm.trans hf.1
    exact hd.symbol id symbol' symbol hbound' hbound
  · intro stamp stamp' block x x' hid hid' hx hx'
    obtain ⟨id₁, f₁, hf₁, hmem₁, -⟩ := hu.entered stamp block x hx
    obtain ⟨id₂, f₂, hf₂, hmem₂, -⟩ := hu.entered stamp' block x' hx'
    cases hid.symm.trans hf₁.1
    cases hid'.symm.trans hf₂.1
    exact hd.stamp id stamp stamp' block hmem₁ hmem₂

/-! ### Entering a block -/

/-- The stamp of a function may be linked to its symbol at any time. -/
theorem link (hu : Mirrored h u) (hd : h.Disciplined) {stamp : Stamp} {id : EntryId} {f : Function}
    (hf : u.LeadsTo stamp id f) {symbol : Symbol} (hsymbol : f.symbol = some symbol) :
    Mirrored h { u with locals := (u.locals.linkSymbol stamp symbol).2 } := by
  have hlinkable := hu.linkable hd (hu.bound id _ symbol hf.2 hsymbol)
  constructor
  · exact hu.grounded
  · exact hu.mirroring.linkSymbol hlinkable hf.1
  · exact hu.bound
  · intro stamp' symbol' hs
    rw [Locals.symbols_linkSymbol] at hs
    split at hs
    · next heq =>
      subst heq
      cases hs
      exact ⟨id, f, hf, hsymbol⟩
    · exact hu.linked stamp' symbol' hs
  · intro stamp' block x hx
    rw [Locals.scopeByStamp?_linkSymbol] at hx
    obtain ⟨id', f', hf', hmem, hlinked⟩ := hu.entered stamp' block x hx
    refine ⟨id', f', hf', hmem, fun symbol' hs => ?_⟩
    have hs' := hlinked symbol' hs
    rw [Locals.symbols_linkSymbol]
    split
    · next heq =>
      subst heq
      rw [← hlinkable.unique stamp symbol' hf.1 hs']
    · exact hs'

/-- To link the symbol of a function keeps a unit mirrored. -/
theorem linkedLocals (hu : Mirrored h u) (hd : h.Disciplined) {stamp : Stamp} {id : EntryId}
    {f : Function} (hf : u.LeadsTo stamp id f) :
    Mirrored h { u with locals := u.linkedLocals stamp f.symbol } ∧
      ∀ symbol, f.symbol = some symbol →
        (u.linkedLocals stamp f.symbol).symbols[stamp]? = some symbol := by
  cases hsymbol : f.symbol with
  | none => exact ⟨hu, fun _ hs => nomatch hs⟩
  | some symbol =>
    refine ⟨hu.link hd hf hsymbol, fun symbol' hs => ?_⟩
    cases hs
    rw [CompilationUnit.linkedLocals, Locals.symbols_linkSymbol, if_pos rfl]

/-- A block of a function is entered under a stamp that is linked to the symbol of the function. -/
theorem enter (hu : Mirrored h u) {stamp : Stamp} {block : Block} {id : EntryId} {f : Function}
    (hd : (h.enter u.definitions stamp block).Disciplined) (hf : u.LeadsTo stamp id f)
    (hlinked : ∀ symbol, f.symbol = some symbol → u.locals.symbols[stamp]? = some symbol)
    {x : EntryId} {ids : IdSupply} {l : Locals}
    (henter : u.locals.enter u.ids stamp block = (x, ids, l)) :
    Mirrored (h.enter u.definitions stamp block) { u with ids, locals := l } := by
  have hu := hu.mono (h.sub_enter u.definitions stamp block)
  rcases Locals.enter_cases henter with ⟨-, rfl, rfl⟩ | ⟨hnone, -, rfl, rfl⟩
  · exact hu
  · constructor
    · exact hu.grounded.mono (Nat.le_succ _)
    · refine hu.mirroring.addScope fun symbol stamp' hs hs' => ?_
      -- Another stamp with the block and the symbol would be a stamp of the same function.
      rw [Option.eq_none_iff_forall_ne_some]
      intro y hy
      have hmem := h.mem_enter hf.1 block
      obtain ⟨id', f', hf', hmem', -⟩ := hu.entered stamp' block y hy
      obtain ⟨id₁, f₁, hf₁, hsymbol⟩ := hu.linked stamp symbol hs
      have hlinkable := hu.linkable hd (hu.bound id₁ _ symbol hf₁.2 hsymbol)
      cases hf.1.symm.trans hf₁.1
      cases hf'.1.symm.trans (hlinkable.linked stamp' hs')
      cases hd.stamp id stamp stamp' block hmem hmem'
      rw [hnone] at hy
      cases hy
    · exact hu.bound
    · exact hu.linked
    · intro stamp' block' y hy
      rw [Locals.scopeByStamp?_addScope] at hy
      split at hy
      · next heq =>
        obtain ⟨rfl, rfl⟩ := heq
        exact ⟨id, f, hf, h.mem_enter hf.1 block, hlinked⟩
      · exact hu.entered stamp' block' y hy

/-! ### Binding a symbol -/

section Bind

variable (hu : Mirrored h u) {id : EntryId} {symbol : Symbol}
include hu

/-- What is known of the definitions after a binding. -/
theorem bound_withSymbol {d : Definition} (hbound : (id, symbol) ∈ h.bound) (id' : EntryId)
    (d' : Definition) (symbol' : Symbol)
    (hd' : (u.definitions.put id (d.withSymbol symbol)).get? id' = some d')
    (hs : d'.symbol = some symbol') : (id', symbol') ∈ h.bound := by
  rw [Definitions.get?_put] at hd'
  split at hd'
  · next heq =>
    subst heq
    cases hd'
    rw [Definition.symbol_withSymbol] at hs
    cases hs
    exact hbound
  · exact hu.bound id' d' symbol' hd' hs

/-- A variable has no stamps that blocks are entered under. -/
theorem bindSymbol_variable {v : Variable} (hget : u.definitions.get? id = some (.variable v))
    (hbound : (id, symbol) ∈ h.bound) :
    Mirrored h { u with
      definitions :=
        (u.definitions.put id (Definition.withSymbol symbol (.variable v))).addSymbol symbol id } := by
  have hfunction {stamp : Stamp} {id' : EntryId} {f : Function} (hf : u.LeadsTo stamp id' f) :
      (u.definitions.put id (Definition.withSymbol symbol (.variable v))).get? id' =
        some (.function f) := by
    have hne : id ≠ id' := by
      rintro rfl
      cases hget.symm.trans hf.2
    rw [Definitions.get?_put_of_ne hne, hf.2]
  constructor
  · exact hu.grounded.withSymbol hget symbol
  · exact hu.mirroring
  · exact hu.bound_withSymbol hbound
  · intro stamp symbol' hs
    obtain ⟨id', f, hf, hsymbol⟩ := hu.linked stamp symbol' hs
    exact ⟨id', f, ⟨hf.1, hfunction hf⟩, hsymbol⟩
  · intro stamp block x hx
    obtain ⟨id', f, hf, hmem, hlinked⟩ := hu.entered stamp block x hx
    exact ⟨id', f, ⟨hf.1, hfunction hf⟩, hmem, hlinked⟩

/-- All stamps of a function are linked to the symbol, and no others. -/
theorem bindSymbol_function (hd : h.Disciplined) {f : Function}
    (hget : u.definitions.get? id = some (.function f)) (hbound : (id, symbol) ∈ h.bound) :
    Mirrored h { u with
      definitions :=
        (u.definitions.put id (Definition.withSymbol symbol (.function f))).addSymbol symbol id
      locals := linkSymbolAll (u.definitions.stamps id) symbol u.locals } := by
  have hself : (u.definitions.put id (Definition.withSymbol symbol (.function f))).get? id =
      some (.function { f with symbol := some symbol }) := Definitions.get?_put_self ..
  -- Other functions are found as before.
  have hother {stamp : Stamp} {id' : EntryId} {f' : Function} (hf' : u.LeadsTo stamp id' f')
      (hne : id ≠ id') :
      (u.definitions.put id (Definition.withSymbol symbol (.function f))).get? id' =
        some (.function f') := by
    rw [Definitions.get?_put_of_ne hne, hf'.2]
  constructor
  · exact hu.grounded.withSymbol hget symbol
  · exact hu.mirroring.linkSymbolAll (hu.linkable hd hbound) fun stamp => Definitions.mem_stamps.1
  · exact hu.bound_withSymbol hbound
  · intro stamp symbol' hs
    rw [Locals.symbols_linkSymbolAll] at hs
    split at hs
    · next hmem =>
      cases hs
      exact ⟨id, _, ⟨Definitions.mem_stamps.1 hmem, hself⟩, rfl⟩
    · next hmem =>
      obtain ⟨id', f', hf', hsymbol⟩ := hu.linked stamp symbol' hs
      have hne : id ≠ id' := by
        rintro rfl
        exact hmem (Definitions.mem_stamps.2 hf'.1)
      exact ⟨id', f', ⟨hf'.1, hother hf' hne⟩, hsymbol⟩
  · intro stamp block x hx
    rw [Locals.scopeByStamp?_linkSymbolAll] at hx
    obtain ⟨id', f', hf', hmem, hlinked⟩ := hu.entered stamp block x hx
    simp only [Locals.symbols_linkSymbolAll, Definitions.mem_stamps]
    by_cases hsame : id = id'
    · subst hsame
      refine ⟨id, _, ⟨hf'.1, hself⟩, hmem, fun symbol' hs => ?_⟩
      rw [if_pos hf'.1, ← hs]
    · refine ⟨id', f', ⟨hf'.1, hother hf' hsame⟩, hmem, fun symbol' hs => ?_⟩
      rw [if_neg, hlinked symbol' hs]
      exact fun hid' => hsame (Option.some.inj (hid'.symm.trans hf'.1))

/-- To bind a symbol keeps a unit mirrored, if the history has the binding. -/
theorem bindSymbol (hd : h.Disciplined) {d : Definition}
    (hget : u.definitions.get? id = some d) (hbound : (id, symbol) ∈ h.bound) :
    Mirrored h { u with
      definitions := (u.definitions.put id (d.withSymbol symbol)).addSymbol symbol id
      locals := u.boundLocals id symbol d } := by
  rcases d with v | f
  · exact hu.bindSymbol_variable hget hbound
  · exact hu.bindSymbol_function hd hget hbound

end Bind

end Mirrored

/-! ## Runs -/

/-- A unit and its history after one more operation. -/
def advance (st : CompilationUnit × History) (op : Operation σ) : CompilationUnit × History :=
  ((st.1.apply op).2, st.2.after st.1.definitions op (st.1.apply op).1)

/-- A run together with its history. -/
def trace (config : Config) (ops : List (Operation σ)) : CompilationUnit × History :=
  ops.foldl advance (new config, {})

/-- What a run has bound and entered since the last restart. -/
def history (config : Config) (ops : List (Operation σ)) : History := (trace config ops).2

theorem trace_append_singleton (config : Config) (ops : List (Operation σ)) (op : Operation σ) :
    trace config (ops ++ [op]) = advance (trace config ops) op := by
  simp [trace]

/-- The history is recorded along the run itself. -/
theorem trace_fst (config : Config) (ops : List (Operation σ)) :
    (trace config ops).1 = run config ops := by
  induction ops using List.reverseRecOn with
  | nil => rfl
  | append_singleton ops op ih =>
    rw [trace_append_singleton, advance, ih]
    simp [run, runFrom]

/-! ### One operation -/

section Advance

variable {h : History} {u : CompilationUnit}

/-- One more operation is recorded with its answer. -/
theorem advance_eq {α : Type} {m : UnitM α} {f : α → Answer} {op : Operation σ}
    (hop : perform op = do return f (← m)) {answer : Except TableError α} {u' : CompilationUnit}
    (hrun : m u = (answer, u')) :
    advance (u, h) op = (u', h.after u.definitions op (answer.map f)) := by
  have happly : u.apply op = (answer.map f, u') := by
    rw [apply, hop, answer_apply, hrun]
  rw [advance, happly]

/-- A quiet operation is not noted. -/
theorem advance_quiet {op : Operation σ} (hop : op.isQuiet = true) :
    advance (u, h) op = ((u.apply op).2, h) := by
  cases op <;> first | rfl | cases hop

/-- Nothing is noted where nothing is bound or entered. -/
theorem advance_of_no_id {m : UnitM (Option EntryId)} {op : Operation σ}
    (hop : perform op = do return .id (← m)) (hrestart : ∀ name, op ≠ .restart name)
    {answer : Except TableError (Option EntryId)} (hrun : m u = (answer, u))
    (hanswer : ∀ x, answer ≠ .ok (some x)) : advance (u, h) op = (u, h) := by
  rw [advance_eq hop hrun, h.after_of_no_id hrestart]
  intro x heq
  obtain ⟨y, hy, hid⟩ := Definitions.map_eq_ok_iff.1 heq
  cases hid
  exact hanswer x hy

variable (hu : Mirrored h u)
include hu

/-- A unit stays mirrored when a function is entered. -/
theorem advance_enterFunction_mirrored (function : Stamp) (block : Block) {st : CompilationUnit × History}
    (hst : advance (u, h) (.enterFunction function block : Operation σ) = st)
    (hd : st.2.Disciplined) : Mirrored st.2 st.1 := by
  rcases u.enterFunction_cases function block with ⟨answer, hrun, hanswer⟩ |
    ⟨id, f, x, ids, l, hid, hf, henter, hrun⟩
  · rw [advance_of_no_id rfl (by rintro _ ⟨⟩) hrun hanswer] at hst
    rw [← hst]
    exact hu
  · rw [advance_eq rfl hrun] at hst
    subst hst
    have hleads : u.LeadsTo function id f := ⟨hid, hf⟩
    obtain ⟨hlink, hlinked⟩ :=
      hu.linkedLocals (hd.mono (h.sub_enter u.definitions function block)) hleads
    have henter := hlink.enter hd hleads hlinked henter
    have hquiet := henter.grounded.undisturbed_put hf (.function { f with rootScope := some x })
      rfl rfl
    exact henter.quiet ((Quiet.refl henter.grounded).of_undisturbed hquiet)

theorem advance_enterChild_mirrored (function : Stamp) (parent block : Block) {st : CompilationUnit × History}
    (hst : advance (u, h) (.enterChild function parent block : Operation σ) = st)
    (hd : st.2.Disciplined) : Mirrored st.2 st.1 := by
  rcases u.enterChild_cases function parent block with ⟨answer, hrun, hanswer⟩ |
    ⟨parentId, x, children, ids, l, l', hparent, henter, hchildren, hl', hrun⟩
  · rw [advance_of_no_id rfl (by rintro _ ⟨⟩) hrun hanswer] at hst
    rw [← hst]
    exact hu
  · rw [advance_eq rfl hrun] at hst
    subst hst
    obtain ⟨id, f, hleads, -, hlinked⟩ := hu.entered function parent parentId hparent
    have henter := hu.enter hd hleads hlinked henter
    rcases hl' with rfl | rfl
    · exact henter
    · exact henter.quiet (.of_same (.refl henter.grounded) (Nat.le_refl _) rfl ⟨rfl, rfl, rfl, rfl⟩)

theorem advance_bindSymbol_mirrored (stamp : Stamp) (symbol : Symbol) {st : CompilationUnit × History}
    (hst : advance (u, h) (.bindSymbol stamp symbol : Operation σ) = st)
    (hd : st.2.Disciplined) : Mirrored st.2 st.1 := by
  rcases u.bindSymbol_cases stamp symbol with hrun | ⟨id, d, -, hget, hrun⟩
  · rw [advance_eq rfl (lift_apply hrun)] at hst
    rw [← hst]
    exact hu
  · rw [advance_eq rfl (lift_apply hrun)] at hst
    subst hst
    exact (hu.mono (h.sub_bound id symbol)).bindSymbol hd hget List.mem_cons_self

/-- A unit stays mirrored with every operation, as long as the history is disciplined. -/
theorem advance_mirrored (op : Operation σ) (hd : (advance (u, h) op).2.Disciplined) :
    Mirrored (advance (u, h) op).2 (advance (u, h) op).1 := by
  cases hop : op.isQuiet with
  | true =>
    rw [advance_quiet hop]
    exact hu.quiet ((perform_isQuiet u hop).apply (.refl hu.grounded))
  | false =>
    cases op with
    | restart name => exact mirrored_of_empty rfl rfl
    | bindSymbol stamp symbol => exact advance_bindSymbol_mirrored hu stamp symbol rfl hd
    | enterFunction function block => exact advance_enterFunction_mirrored hu function block rfl hd
    | enterChild function parent block =>
      exact advance_enterChild_mirrored hu function parent block rfl hd
    | _ => cases hop

end Advance

/-- After any run the unit is mirrored, if the history is disciplined. -/
theorem trace_mirrored (config : Config) (ops : List (Operation σ))
    (hd : (trace config ops).2.Disciplined) :
    Mirrored (trace config ops).2 (trace config ops).1 := by
  induction ops using List.reverseRecOn with
  | nil => exact mirrored_of_empty rfl rfl
  | append_singleton ops op ih =>
    rw [trace_append_singleton] at hd ⊢
    by_cases hop : ∃ name, op = .restart name
    · obtain ⟨name, rfl⟩ := hop
      exact mirrored_of_empty rfl rfl
    · -- The history before is part of the history after.
      have hsub := History.sub_after (fun name heq => hop ⟨name, heq⟩) (trace config ops).2
        (trace config ops).1.definitions ((trace config ops).1.apply op).1
      exact advance_mirrored (ih (hd.mono hsub)) op hd

/-- After any run in which, since the last restart, symbols and definitions were bound one to one
and no block of a function was entered under two stamps: the symbol of a function leads to a scope
of a block if and only if one of the stamps of the function does. -/
theorem run_fans_out (config : Config) (ops : List (Operation σ))
    (hd : (history config ops).Disciplined) (id : EntryId) (f : Function) (symbol : Symbol)
    (hf : (run config ops).definitions.get? id = some (.function f))
    (hsymbol : f.symbol = some symbol) (block : Block) (x : EntryId) :
    (run config ops).locals.scopeBySymbol? symbol block = some x ↔
      ∃ stamp ∈ (run config ops).definitions.stamps id,
        (run config ops).locals.scopeByStamp? stamp block = some x := by
  have hu := trace_mirrored config ops hd
  rw [trace_fst] at hu
  have hbound := hu.bound id _ symbol hf hsymbol
  rw [hu.mirroring.bySymbol]
  constructor
  · rintro ⟨stamp, hs, hx⟩
    have hid := (hu.linkable hd hbound).linked stamp hs
    exact ⟨stamp, Definitions.mem_stamps.2 hid, hx⟩
  · rintro ⟨stamp, hmem, hx⟩
    have hid := Definitions.mem_stamps.1 hmem
    obtain ⟨id', f', hf', -, hlinked⟩ := hu.entered stamp block x hx
    cases hid.symm.trans hf'.1
    cases hf.symm.trans hf'.2
    exact ⟨stamp, hlinked symbol hsymbol, hx⟩

/-- A symbol is bound under the stamp of a call, before the function is defined under another stamp
and its blocks are entered. -/
theorem run_fans_out_implicit :
    let call : PrototypeDecl :=
      { name := ⟨7⟩, stamp := ⟨1⟩, storage := .external, type := .base [] .void,
        loc := ⟨⟨1⟩, 3, 1⟩ }
    let body : FunctionDecl :=
      { name := ⟨7⟩, stamp := ⟨2⟩, storage := .external, result := .base [] .void, params := [],
        variadic := false, loc := ⟨⟨1⟩, 9, 1⟩ }
    let ops : List (Operation Unit) :=
      [.declare (.prototype call), .bindSymbol ⟨1⟩ ⟨4⟩, .declare (.function body),
        .enterFunction ⟨2⟩ ⟨0⟩, .enterChild ⟨2⟩ ⟨0⟩ ⟨1⟩]
    (history {} ops).Disciplined ∧
      (run {} ops).locals.scopeBySymbol? ⟨4⟩ ⟨1⟩ = some ⟨2⟩ := by
  intro call body ops
  have hhistory : history {} ops =
      { bound := [(⟨0⟩, ⟨4⟩)], entered := [(⟨0⟩, ⟨2⟩, ⟨1⟩), (⟨0⟩, ⟨2⟩, ⟨0⟩)] } := by
    decide +kernel
  have hd : (history {} ops).Disciplined := by
    rw [hhistory]
    constructor <;> grind
  have hsymbol : ((run {} ops).definitions.functionAt ⟨0⟩).map (·.symbol) = .ok (some ⟨4⟩) := by
    decide +kernel
  obtain ⟨f, hf, hsymbol⟩ := Definitions.map_functionAt_eq_ok_iff.1 hsymbol
  have hstamp : ⟨2⟩ ∈ (run {} ops).definitions.stamps ⟨0⟩ := by
    decide +kernel
  have hscope : (run {} ops).locals.scopeByStamp? ⟨2⟩ ⟨1⟩ = some ⟨2⟩ := by
    decide +kernel
  exact ⟨hd, (run_fans_out {} ops hd ⟨0⟩ f ⟨4⟩ hf hsymbol ⟨1⟩ ⟨2⟩).2 ⟨⟨2⟩, hstamp, hscope⟩⟩

end DebugInfo.CompilationUnit
