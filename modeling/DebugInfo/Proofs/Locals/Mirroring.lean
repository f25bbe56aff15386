import DebugInfo.Proofs.Locals.Cases
import DebugInfo.CompilationUnit.Globals

/-!
# Scopes by symbol

The index of scopes by symbol should hold what the index by stamp holds for the stamps that are
linked to a symbol.  A link copies what is there, and a scope that is added later is added to both
indices.  Neither takes an entry back, so the indices agree only if none has to be taken back: a
stamp that is linked keeps its symbol, and two stamps that are linked to one symbol have no block in
common.
-/

namespace DebugInfo.Locals

/-- Some stamp that is linked to the symbol leads to the scope. -/
def Reaches (l : Locals) (symbol : Symbol) (block : Block) (x : EntryId) : Prop :=
  ∃ stamp, l.symbols[stamp]? = some symbol ∧ l.scopeByStamp? stamp block = some x

structure Mirroring (l : Locals) : Prop where
  mem_blocksOf : ∀ stamp block, block ∈ l.blocksOf stamp ↔
    ∃ x, l.scopeByStamp? stamp block = some x
  bySymbol : ∀ symbol block x,
    l.scopeBySymbol? symbol block = some x ↔ l.Reaches symbol block x

theorem mirroring_empty : Mirroring ∅ where
  mem_blocksOf stamp block := by simp
  bySymbol symbol block x := by simp [Reaches]

/-- The indices of scopes are the same, and so is what becomes of new scopes. -/
structure SameScopes (l l' : Locals) : Prop where
  byStamp : l'.scopesByStamp = l.scopesByStamp
  bySymbol : l'.scopesBySymbol = l.scopesBySymbol
  blocks : l'.blocks = l.blocks
  symbols : l'.symbols = l.symbols

theorem SameScopes.refl (l : Locals) : SameScopes l l := ⟨rfl, rfl, rfl, rfl⟩

theorem SameScopes.trans {l₁ l₂ l₃ : Locals} (h : SameScopes l₁ l₂) (h' : SameScopes l₂ l₃) :
    SameScopes l₁ l₃ :=
  ⟨h'.byStamp.trans h.byStamp, h'.bySymbol.trans h.bySymbol, h'.blocks.trans h.blocks,
    h'.symbols.trans h.symbols⟩

theorem SameScopes.scopeByStamp?_eq {l l' : Locals} (h : SameScopes l l') :
    l'.scopeByStamp? = l.scopeByStamp? := by
  funext stamp block
  rw [scopeByStamp?, h.byStamp, scopeByStamp?]

theorem Mirroring.of_sameScopes {l l' : Locals} (h : l.Mirroring) (hs : SameScopes l l') :
    l'.Mirroring where
  mem_blocksOf stamp block := by
    rw [blocksOf, hs.blocks, hs.scopeByStamp?_eq]
    exact h.mem_blocksOf stamp block
  bySymbol symbol block x := by
    rw [scopeBySymbol?, hs.bySymbol, Reaches, hs.symbols, hs.scopeByStamp?_eq]
    exact h.bySymbol symbol block x

variable {l : Locals} {stamp : Stamp} {symbol : Symbol} {group : Stamp → Prop}

/-! ## Linking -/

/-- The stamps of a group may be linked to the symbol: none of them is linked to another one, no
other stamp is linked to this one, and no two of them have a block in common. -/
structure Linkable (l : Locals) (group : Stamp → Prop) (symbol : Symbol) : Prop where
  linked : ∀ stamp, l.symbols[stamp]? = some symbol → group stamp
  unique : ∀ stamp symbol', group stamp → l.symbols[stamp]? = some symbol' → symbol' = symbol
  distinct : ∀ stamp stamp' block x x', group stamp → group stamp' →
    l.scopeByStamp? stamp block = some x → l.scopeByStamp? stamp' block = some x' →
      stamp = stamp'

theorem scopeByStamp?_linkSymbol (l : Locals) (stamp : Stamp) (symbol : Symbol) :
    (l.linkSymbol stamp symbol).2.scopeByStamp? = l.scopeByStamp? := by
  obtain ⟨m, heq, -⟩ := linkSymbol_eq l stamp symbol
  rw [heq]
  rfl

theorem symbols_linkSymbol (l : Locals) (stamp stamp' : Stamp) (symbol : Symbol) :
    (l.linkSymbol stamp symbol).2.symbols[stamp']? =
      if stamp = stamp' then some symbol else l.symbols[stamp']? := by
  obtain ⟨m, heq, -⟩ := linkSymbol_eq l stamp symbol
  rw [heq]
  simp only [Std.ExtTreeMap.getElem?_insert, Std.compare_eq_iff_eq]

theorem Linkable.linkSymbol (h : l.Linkable group symbol) (hstamp : group stamp) :
    (l.linkSymbol stamp symbol).2.Linkable group symbol := by
  constructor
  · intro stamp' hs
    rw [symbols_linkSymbol] at hs
    split at hs
    · next heq => exact heq ▸ hstamp
    · exact h.linked stamp' hs
  · intro stamp' symbol' hgroup hs
    rw [symbols_linkSymbol] at hs
    split at hs
    · exact (Option.some.inj hs).symm
    · exact h.unique stamp' symbol' hgroup hs
  · rw [scopeByStamp?_linkSymbol]
    exact h.distinct

/-- Where the symbol leads after it is linked to one more stamp of its group. -/
theorem Mirroring.scopeBySymbol?_linkSymbol (h : l.Mirroring) (symbol' : Symbol) (block : Block) :
    (l.linkSymbol stamp symbol).2.scopeBySymbol? symbol' block =
      if symbol = symbol' then
        (l.scopeByStamp? stamp block).or (l.scopeBySymbol? symbol' block)
      else l.scopeBySymbol? symbol' block := by
  obtain ⟨m, heq, hm⟩ := linkSymbol_eq l stamp symbol
  rw [heq]
  refine (hm symbol' block).trans ?_
  by_cases hblock : block ∈ l.blocksOf stamp
  · simp [hblock]
  · have hnone : l.scopeByStamp? stamp block = none := by
      rw [Option.eq_none_iff_forall_ne_some]
      exact fun x hx => hblock ((h.mem_blocksOf stamp block).2 ⟨x, hx⟩)
    simp [hblock, hnone]

theorem reaches_linkSymbol (hlink : l.Linkable group symbol) (hstamp : group stamp)
    (symbol' : Symbol) (block : Block) (x : EntryId) :
    (l.linkSymbol stamp symbol).2.Reaches symbol' block x ↔
      symbol = symbol' ∧ l.scopeByStamp? stamp block = some x ∨ l.Reaches symbol' block x := by
  simp only [Reaches, symbols_linkSymbol, scopeByStamp?_linkSymbol]
  constructor
  · rintro ⟨stamp', hs, hx⟩
    split at hs
    · next heq =>
      subst heq
      exact .inl ⟨Option.some.inj hs, hx⟩
    · exact .inr ⟨stamp', hs, hx⟩
  · rintro (⟨rfl, hx⟩ | ⟨stamp', hs, hx⟩)
    · exact ⟨stamp, if_pos rfl, hx⟩
    · by_cases heq : stamp = stamp'
      · subst heq
        have hsame := hlink.unique stamp symbol' hstamp hs
        exact ⟨stamp, by rw [if_pos rfl, hsame], hx⟩
      · exact ⟨stamp', by rw [if_neg heq, hs], hx⟩

theorem Mirroring.linkSymbol (h : l.Mirroring) (hlink : l.Linkable group symbol)
    (hstamp : group stamp) : (l.linkSymbol stamp symbol).2.Mirroring := by
  constructor
  · intro stamp' block
    rw [scopeByStamp?_linkSymbol]
    obtain ⟨m, heq, -⟩ := linkSymbol_eq l stamp symbol
    rw [heq]
    exact h.mem_blocksOf stamp' block
  · intro symbol' block x
    rw [h.scopeBySymbol?_linkSymbol, reaches_linkSymbol hlink hstamp]
    split
    · next hsame =>
      subst hsame
      rw [Option.or_eq_some_iff, h.bySymbol]
      constructor
      · rintro (hx | ⟨-, hx⟩)
        · exact .inl ⟨rfl, hx⟩
        · exact .inr hx
      · rintro (⟨-, hx⟩ | ⟨stamp', hs, hx⟩)
        · exact .inl hx
        · -- A block of the stamp itself is not in the way of another stamp's.
          cases hy : l.scopeByStamp? stamp block with
          | none => exact .inr ⟨rfl, stamp', hs, hx⟩
          | some y =>
            have hgroup := hlink.linked stamp' hs
            rw [← hlink.distinct stamp stamp' block y x hstamp hgroup hy hx, hy] at hx
            exact .inl hx
    · next hne =>
      rw [h.bySymbol]
      exact ⟨.inr, fun hx => hx.resolve_left fun hs => hne hs.1⟩

theorem Mirroring.linkSymbolAll {stamps : List Stamp} (h : l.Mirroring)
    (hlink : l.Linkable group symbol) (hstamps : ∀ stamp ∈ stamps, group stamp) :
    (CompilationUnit.linkSymbolAll stamps symbol l).Mirroring := by
  induction stamps generalizing l with
  | nil => exact h
  | cons stamp stamps ih =>
    have hstamp := hstamps stamp List.mem_cons_self
    exact ih (h.linkSymbol hlink hstamp) (hlink.linkSymbol hstamp)
      fun stamp' hmem => hstamps stamp' (List.mem_cons_of_mem stamp hmem)

theorem scopeByStamp?_linkSymbolAll (stamps : List Stamp) (symbol : Symbol) (l : Locals) :
    (CompilationUnit.linkSymbolAll stamps symbol l).scopeByStamp? = l.scopeByStamp? := by
  induction stamps generalizing l with
  | nil => rfl
  | cons stamp stamps ih => exact (ih _).trans (scopeByStamp?_linkSymbol l stamp symbol)

theorem symbols_linkSymbolAll (stamps : List Stamp) (symbol : Symbol) (l : Locals) (stamp : Stamp) :
    (CompilationUnit.linkSymbolAll stamps symbol l).symbols[stamp]? =
      if stamp ∈ stamps then some symbol else l.symbols[stamp]? := by
  induction stamps generalizing l with
  | nil => simp [CompilationUnit.linkSymbolAll]
  | cons stamp' stamps ih =>
    refine (ih _).trans ?_
    rw [symbols_linkSymbol]
    by_cases hmem : stamp ∈ stamps
    · simp [hmem]
    · by_cases heq : stamp' = stamp
      · simp [heq]
      · simp [hmem, heq, Ne.symm heq]

/-! ## Adding a scope -/

/-- A scope is added for a block that no stamp has that is linked to the same symbol. -/
theorem Mirroring.addScope (h : l.Mirroring) {block : Block} {id : EntryId}
    (hnew : ∀ symbol stamp', l.symbols[stamp]? = some symbol → l.symbols[stamp']? = some symbol →
      l.scopeByStamp? stamp' block = none) : (l.addScope stamp block id).Mirroring := by
  constructor
  · intro stamp' block'
    rw [blocksOf_addScope, scopeByStamp?_addScope]
    by_cases hs : stamp = stamp'
    · subst hs
      by_cases hb : block = block'
      · simp [hb]
      · simp [hb, Ne.symm hb, h.mem_blocksOf]
    · simp [hs, h.mem_blocksOf]
  · intro symbol block' x
    have hsymbols : (l.addScope stamp block id).symbols = l.symbols := rfl
    simp only [scopeBySymbol?_addScope, Reaches, scopeByStamp?_addScope, hsymbols]
    split
    · next hcond =>
      obtain ⟨hs, rfl⟩ := hcond
      constructor
      · intro hx
        exact ⟨stamp, hs, by rw [if_pos ⟨rfl, rfl⟩, hx]⟩
      · rintro ⟨stamp', hs', hx⟩
        split at hx
        · exact hx
        · rw [hnew symbol stamp' hs hs'] at hx
          cases hx
    · next hcond =>
      rw [h.bySymbol]
      constructor
      · rintro ⟨stamp', hs, hx⟩
        refine ⟨stamp', hs, ?_⟩
        rw [if_neg, hx]
        rintro ⟨rfl, rfl⟩
        exact hcond ⟨hs, rfl⟩
      · rintro ⟨stamp', hs, hx⟩
        split at hx
        · next heq =>
          obtain ⟨rfl, rfl⟩ := heq
          exact absurd ⟨hs, rfl⟩ hcond
        · exact ⟨stamp', hs, hx⟩

end DebugInfo.Locals
