import DebugInfo.Proofs.Failure.Tables
import DebugInfo.Proofs.FirstOccurrences
import DebugInfo.Proofs.Locals.Tree

/-!
# The keys of locals

Which stamps were declared and which blocks were entered can be told from the operations alone.  The
indices by stamp lead from these keys to the variables and to the scopes, one to one, and each stamp
has a list of its blocks, in the order in which they were entered first.  The list says as much as
the index of scopes, but only both together make a symbol lead to the right scopes.
-/

namespace DebugInfo

/-! ## Indices -/

/-- The lookup leads from the keys to the entries, one to one. -/
structure Indexes {κ : Type} (find? : κ → Option EntryId) (keys : List κ)
    (entries : EntryId → Prop) : Prop where
  known_iff : ∀ k, (∃ id, find? k = some id) ↔ k ∈ keys
  entry_iff : ∀ id, (∃ k, find? k = some id) ↔ entries id
  injective : ∀ k k' id, find? k = some id → find? k' = some id → k = k'

namespace Indexes

variable {κ : Type} {find? find?' : κ → Option EntryId} {keys : List κ}
  {entries entries' : EntryId → Prop} {k : κ} {id : EntryId}

theorem of_entries (h : Indexes find? keys entries) (hentries : ∀ id, entries' id ↔ entries id) :
    Indexes find? keys entries' where
  known_iff := h.known_iff
  entry_iff id := (h.entry_iff id).trans (hentries id).symm
  injective := h.injective

/-- A key may come up again. -/
theorem again (h : Indexes find? keys entries) (hk : find? k = some id) :
    Indexes find? (keys ++ [k]) entries where
  known_iff k' := by
    have hknown : k ∈ keys := (h.known_iff k).1 ⟨id, hk⟩
    rw [h.known_iff, List.mem_append, List.mem_singleton]
    exact (or_iff_left_of_imp fun heq => heq ▸ hknown).symm
  entry_iff := h.entry_iff
  injective := h.injective

/-- A new key leads to a new entry. -/
theorem insert [DecidableEq κ] (h : Indexes find? keys entries) (hk : find? k = none)
    (hid : ¬ entries id) (hfind : ∀ k', find?' k' = if k = k' then some id else find? k')
    (hentries : ∀ id', entries' id' ↔ entries id' ∨ id' = id) :
    Indexes find?' (keys ++ [k]) entries' where
  known_iff k' := by
    rw [hfind, List.mem_append, List.mem_singleton]
    split
    · next heq => exact iff_of_true ⟨id, rfl⟩ (.inr heq.symm)
    · next hne => rw [h.known_iff, or_iff_left (Ne.symm hne)]
  entry_iff id' := by
    rw [hentries]
    constructor
    · rintro ⟨k', hk'⟩
      rw [hfind] at hk'
      split at hk'
      · exact .inr (Option.some.inj hk').symm
      · exact .inl ((h.entry_iff id').1 ⟨k', hk'⟩)
    · rintro (hid' | rfl)
      · obtain ⟨k', hk'⟩ := (h.entry_iff id').2 hid'
        refine ⟨k', ?_⟩
        rw [hfind, if_neg, hk']
        rintro rfl
        cases hk.symm.trans hk'
      · exact ⟨k, by rw [hfind, if_pos rfl]⟩
  injective k₁ k₂ id' h₁ h₂ := by
    have hold {k' : κ} (hk' : find? k' = some id) : False := hid ((h.entry_iff id).1 ⟨k', hk'⟩)
    rw [hfind] at h₁ h₂
    split at h₁ <;> split at h₂
    · next heq₁ heq₂ => exact heq₁.symm.trans heq₂
    · cases h₁
      exact (hold h₂).elim
    · cases h₂
      exact (hold h₁).elim
    · exact h.injective k₁ k₂ id' h₁ h₂

end Indexes

namespace Locals

/-! ## Keys -/

def noteDeclared (stamps : List Stamp) : Operation → List Stamp
  | .declare stamp _ => stamps ++ [stamp]
  | .clear _ => []
  | _ => stamps

/-- The stamps that were declared since the table was last cleared, as often as they were. -/
def declared (ops : List Operation) : List Stamp := ops.foldl noteDeclared []

/-- A block inside of another one is entered only if the other one was. -/
def noteEntered (blocks : List (Stamp × Block)) : Operation → List (Stamp × Block)
  | .enter function block => blocks ++ [(function, block)]
  | .enterChild function parent block =>
      if (function, parent) ∈ blocks then blocks ++ [(function, block)] else blocks
  | .clear _ => []
  | _ => blocks

/-- The blocks that were entered since the table was last cleared, as often as they were. -/
def entered (ops : List Operation) : List (Stamp × Block) := ops.foldl noteEntered []

/-- The blocks of a function among these. -/
def blocksUnder (function : Stamp) (blocks : List (Stamp × Block)) : List Block :=
  (blocks.filter (·.1 = function)).map (·.2)

theorem mem_blocksUnder {function : Stamp} {block : Block} {blocks : List (Stamp × Block)} :
    block ∈ blocksUnder function blocks ↔ (function, block) ∈ blocks := by
  simp [blocksUnder]

theorem blocksUnder_concat (function function' : Stamp) (block : Block)
    (blocks : List (Stamp × Block)) :
    blocksUnder function' (blocks ++ [(function, block)]) =
      if function = function' then blocksUnder function' blocks ++ [block]
      else blocksUnder function' blocks := by
  by_cases h : function = function' <;> simp [blocksUnder, h]

variable {l l' : Locals} {ids ids' : IdSupply} {function stamp : Stamp} {symbol : Symbol}
  {block : Block} {id x : EntryId} {stamps : List Stamp} {blocks : List (Stamp × Block)}

/-- The indices by stamp and the lists of blocks hold these stamps and blocks. -/
structure Keyed (stamps : List Stamp) (blocks : List (Stamp × Block)) (l : Locals) : Prop where
  stamps : Indexes l.idByStamp? stamps l.IsVariable
  scopes : Indexes (fun k : Stamp × Block => l.scopeByStamp? k.1 k.2) blocks l.IsScope
  lists : ∀ function, l.blocksOf function = (blocksUnder function blocks).eraseDups

theorem keyed_empty : Keyed [] [] ∅ := by
  refine ⟨⟨?_, ?_, ?_⟩, ⟨?_, ?_, ?_⟩, ?_⟩ <;> simp [IsVariable, IsScope, blocksUnder]

/-! ### What adds no key -/

/-- Whether an entry is a scope, if there is one. -/
def isScope? (l : Locals) (x : EntryId) : Option Bool := (l.get? x).map (·.isScope)

theorem isScope_iff : l.IsScope x ↔ l.isScope? x = some true := by
  rw [isScope?, Option.map_eq_some_iff]
  constructor
  · rintro ⟨children, hx⟩
    exact ⟨_, hx, rfl⟩
  · rintro ⟨v | children, hx, hkind⟩
    · cases hkind
    · exact ⟨children, hx⟩

theorem isVariable_iff : l.IsVariable x ↔ l.isScope? x = some false := by
  rw [isScope?, Option.map_eq_some_iff]
  constructor
  · rintro ⟨v, hx⟩
    exact ⟨_, hx, rfl⟩
  · rintro ⟨v | children, hx, hkind⟩
    · exact ⟨v, hx⟩
    · cases hkind

theorem isScope?_put (l : Locals) (id : EntryId) (e : Local) (x : EntryId) :
    (l.put id e).isScope? x = if id = x then some e.isScope else l.isScope? x := by
  rw [isScope?, get?_put]
  split <;> rfl

/-- Entries stay of their kinds, and the keys lead where they led. -/
structure SameKeys (l l' : Locals) : Prop where
  kinds : ∀ x, l'.isScope? x = l.isScope? x
  stamps : l'.variablesByStamp = l.variablesByStamp
  scopes : l'.scopesByStamp = l.scopesByStamp
  lists : l'.blocks = l.blocks

theorem Keyed.of_same (h : Keyed stamps blocks l) (hs : SameKeys l l') :
    Keyed stamps blocks l' := by
  have hstamps : l'.idByStamp? = l.idByStamp? := by
    funext stamp
    rw [idByStamp?, hs.stamps, idByStamp?]
  have hscopes : l'.scopeByStamp? = l.scopeByStamp? := by
    funext function block
    rw [scopeByStamp?, hs.scopes, scopeByStamp?]
  constructor
  · rw [hstamps]
    refine h.stamps.of_entries fun x => ?_
    rw [isVariable_iff, hs.kinds, isVariable_iff]
  · rw [hscopes]
    refine h.scopes.of_entries fun x => ?_
    rw [isScope_iff, hs.kinds, isScope_iff]
  · intro function
    rw [blocksOf, hs.lists]
    exact h.lists function

theorem sameKeys_put {e e' : Local} (he : l.get? id = some e) (hkind : e'.isScope = e.isScope) :
    SameKeys l (l.put id e') := by
  refine ⟨fun x => ?_, rfl, rfl, rfl⟩
  rw [isScope?_put]
  split
  · next heq => rw [← heq, isScope?, he, hkind, Option.map_some]
  · rfl

theorem Keyed.attach (h : Keyed stamps blocks l) {b : Bool}
    (ho : l.attach function stamp block = .ok (b, l')) : Keyed stamps blocks l' := by
  rcases attach_cases ho with rfl | ⟨var, scope, children, -, -, hchildren, rfl⟩
  · exact h
  · exact h.of_same (sameKeys_put hchildren rfl)

theorem Keyed.bindSymbol (h : Keyed stamps blocks l)
    (ho : l.bindSymbol stamp symbol = some (x, l')) : Keyed stamps blocks l' := by
  obtain ⟨v, -, hv, rfl⟩ := bindSymbol_cases ho
  have hput : SameKeys l (l.put x (.variable { v with symbol := some symbol })) :=
    sameKeys_put hv rfl
  exact (h.of_same hput).of_same ⟨fun _ => rfl, rfl, rfl, rfl⟩

theorem Keyed.linkSymbol (h : Keyed stamps blocks l) (function : Stamp) (symbol : Symbol) :
    Keyed stamps blocks (l.linkSymbol function symbol).2 := by
  obtain ⟨m, heq, -⟩ := linkSymbol_eq l function symbol
  rw [heq]
  exact h.of_same ⟨fun _ => rfl, rfl, rfl, rfl⟩

/-! ### New keys -/

section Fresh

variable (hs : Linked (fun _ => True) ids l)
include hs

theorem isVariable_putFresh (e : Local) :
    (l.put ids.fresh.1 e).IsVariable x ↔ l.IsVariable x ∨ x = ids.fresh.1 ∧ e.isScope = false := by
  rw [isVariable_iff, isVariable_iff, isScope?_put]
  split
  · next heq => simp [← heq, isScope?, hs.get?_fresh]
  · next hne => simp [Ne.symm hne]

theorem Keyed.addVariable (h : Keyed stamps blocks l) (hnew : l.idByStamp? stamp = none)
    (v : LocalVariable) : Keyed (stamps ++ [stamp]) blocks
      ((l.put ids.fresh.1 (.variable v)).addStamp stamp ids.fresh.1) where
  stamps := by
    refine h.stamps.insert hnew hs.not_isVariable_fresh (idByStamp?_addStamp _ stamp · _)
      fun y => ?_
    exact (isVariable_putFresh hs (.variable v)).trans (by simp [Local.isScope])
  scopes := h.scopes.of_entries (sameTree_putVariable hs.not_isScope_fresh v).scopes
  lists := h.lists

theorem Keyed.addScope (h : Keyed stamps blocks l) (hnew : l.scopeByStamp? function block = none) :
    Keyed stamps (blocks ++ [(function, block)]) (l.addScope function block ids.fresh.1) where
  stamps := h.stamps.of_entries fun y =>
    (isVariable_putFresh hs (.scope [])).trans (by simp [Local.isScope])
  scopes := by
    have hfind (k : Stamp × Block) :
        (l.addScope function block ids.fresh.1).scopeByStamp? k.1 k.2 =
          if (function, block) = k then some ids.fresh.1 else l.scopeByStamp? k.1 k.2 := by
      simp only [scopeByStamp?_addScope, Prod.ext_iff]
    exact h.scopes.insert hnew hs.not_isScope_fresh hfind fun y =>
      (isScope_addScope y).trans or_comm
  lists function' := by
    -- The index did not have the block, so the list did not have it either.
    rw [blocksOf_addScope, blocksUnder_concat]
    split
    · next heq =>
      subst heq
      have hunknown : (function, block) ∉ blocks := by
        rw [← h.scopes.known_iff, hnew]
        exact nofun
      rw [eraseDups_concat, if_neg (mt mem_blocksUnder.1 hunknown), h.lists]
    · exact h.lists function'

theorem Keyed.declare (h : Keyed stamps blocks l) {v : LocalVariable}
    (ho : l.declare ids stamp v = (x, ids', l')) : Keyed (stamps ++ [stamp]) blocks l' := by
  rcases declare_cases ho with ⟨hx, -, rfl⟩ | ⟨hnew, rfl, -, rfl⟩
  · exact ⟨h.stamps.again hx, h.scopes, h.lists⟩
  · exact h.addVariable hs hnew v

theorem Keyed.enter (h : Keyed stamps blocks l)
    (ho : l.enter ids function block = (x, ids', l')) :
    Keyed stamps (blocks ++ [(function, block)]) l' := by
  rcases enter_cases ho with ⟨hx, -, rfl⟩ | ⟨hnew, rfl, -, rfl⟩
  · refine ⟨h.stamps, h.scopes.again hx, fun function' => ?_⟩
    rw [h.lists, blocksUnder_concat]
    split
    · next heq =>
      subst heq
      have hknown := (h.scopes.known_iff (function, block)).1 ⟨x, hx⟩
      rw [eraseDups_concat, if_pos (mem_blocksUnder.2 hknown)]
    · rfl
  · exact h.addScope hs hnew

/-- The outer block is looked up, and its scope is one. -/
theorem exists_enterChild (function : Stamp) (parent block : Block) :
    ∃ answer s', l.enterChild ids function parent block = .ok (answer, s') := by
  cases ho : l.enterChild ids function parent block with
  | ok r => exact ⟨r.1, r.2, rfl⟩
  | error e =>
    obtain ⟨id, hid, herror⟩ := enterChild_eq_error_iff.1 ho
    obtain ⟨children, hchildren⟩ := hs.scopesByStamp function parent id hid
    rw [childrenAt_eq_ok_iff.2 hchildren] at herror
    cases herror

theorem Keyed.enterChild (h : Keyed stamps blocks l) {parent : Block} {answer : Option EntryId}
    (ho : l.enterChild ids function parent block = .ok (answer, ids', l')) :
    Keyed stamps
      (if (function, parent) ∈ blocks then blocks ++ [(function, block)] else blocks) l' := by
  have hknown := h.scopes.known_iff (function, parent)
  rcases enterChild_cases ho with ⟨hunknown, -, -, rfl⟩ |
    ⟨p, x, children, entered, hp, -, henter, hchildren, hl'⟩
  · rwa [if_neg]
    rw [← hknown, hunknown]
    exact nofun
  · have hentered := h.enter hs henter
    rw [if_pos (hknown.1 ⟨p, hp⟩)]
    rcases hl' with ⟨-, rfl⟩ | ⟨-, rfl⟩
    · exact hentered
    · exact hentered.of_same (sameKeys_put hchildren rfl)

end Fresh

/-! ## Runs -/

theorem Keyed.step {s : State} (h : Keyed stamps blocks s.2) (hs : Sound s) (op : Operation) :
    Keyed (noteDeclared stamps op) (noteEntered blocks op) (step s op).2 := by
  cases op with
  | declare stamp v => exact h.declare hs rfl
  | enter function block => exact h.enter hs rfl
  | enterChild function parent block =>
    obtain ⟨answer, s', ho⟩ := exists_enterChild hs function parent block
    simp only [Locals.step, ho]
    exact h.enterChild hs ho
  | attach function stamp block =>
    simp only [Locals.step]
    split
    · next ho => exact h.attach ho
    · exact h
  | linkSymbol function symbol => exact h.linkSymbol function symbol
  | bindSymbol stamp symbol =>
    simp only [Locals.step]
    split
    · next ho => exact h.bindSymbol ho
    · exact h
  | skip => exact h
  | clear ids => exact keyed_empty

theorem Keyed.runFrom {s : State} (h : Keyed stamps blocks s.2) (hs : Sound s)
    (ops : List Operation) :
    Keyed (ops.foldl noteDeclared stamps) (ops.foldl noteEntered blocks) (runFrom s ops).2 := by
  induction ops generalizing s stamps blocks with
  | nil => exact h
  | cons op ops ih => exact ih (h.step hs op) (step_sound hs op)

theorem Keyed.mem_blocksOf (h : Keyed stamps blocks l) :
    block ∈ l.blocksOf function ↔ block ∈ blocksUnder function blocks := by
  rw [h.lists, List.mem_eraseDups]

/-- A symbol that is linked to a stamp leads to the scopes of the stamp, and nowhere else than
before. -/
theorem Keyed.scopeBySymbol?_linkSymbol (h : Keyed stamps blocks l) (symbol symbol' : Symbol)
    (block : Block) :
    (l.linkSymbol function symbol).2.scopeBySymbol? symbol' block =
      if symbol' = symbol ∧ block ∈ blocksUnder function blocks then
        l.scopeByStamp? function block
      else l.scopeBySymbol? symbol' block := by
  obtain ⟨m, heq, hm⟩ := linkSymbol_eq l function symbol
  rw [heq]
  refine (hm symbol' block).trans ?_
  simp only [h.mem_blocksOf, eq_comm (a := symbol)]
  split
  · next hmem =>
    obtain ⟨x, hx⟩ := (h.scopes.known_iff (function, block)).2 (mem_blocksUnder.1 hmem.2)
    rw [hx, Option.some_or]
  · rfl

/-- The stamps that were declared lead to the variables, and the blocks that were entered to the
scopes, one to one; the list of each stamp has its blocks, each once and in the order in which they
were entered first.  So to link a symbol to a stamp counts the blocks that were entered under the
stamp and lets the symbol lead to the scope of each of them, and changes nothing else. -/
theorem run_keyed (ids : IdSupply) (ops : List Operation) :
    let l := (run ids ops).2
    Indexes l.idByStamp? (declared ops) l.IsVariable ∧
    Indexes (fun k : Stamp × Block => l.scopeByStamp? k.1 k.2) (entered ops) l.IsScope ∧
    ∀ function, let blocks := blocksUnder function (entered ops)
      l.blocksOf function = blocks.eraseDups ∧ (l.blocksOf function).Nodup ∧
      ∀ symbol, let l' := (l.linkSymbol function symbol).2
        (l.linkSymbol function symbol).1 = blocks.toFinset.card ∧
        (∀ symbol' block, l'.scopeBySymbol? symbol' block =
          if symbol' = symbol ∧ block ∈ blocks then l.scopeByStamp? function block
          else l.scopeBySymbol? symbol' block) ∧
        l' = { l with
          symbols := l.symbols.insert function symbol
          scopesBySymbol := l'.scopesBySymbol } := by
  intro l
  have h : Keyed (declared ops) (entered ops) l :=
    Keyed.runFrom (s := (ids, ∅)) keyed_empty (linked_empty _ ids) ops
  refine ⟨h.stamps, h.scopes, fun function => ?_⟩
  intro blocks
  have hlist : l.blocksOf function = blocks.eraseDups := h.lists function
  refine ⟨hlist, hlist ▸ nodup_eraseDups blocks, fun symbol => ⟨?_, ?_, ?_⟩⟩
  · rw [← length_eraseDups, ← hlist]
    rfl
  · exact h.scopeBySymbol?_linkSymbol symbol
  · obtain ⟨m, heq, -⟩ := linkSymbol_eq l function symbol
    rw [heq]

end Locals

end DebugInfo
