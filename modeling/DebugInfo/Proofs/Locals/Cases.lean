import DebugInfo.Locals

/-!
# What an operation on locals does

What a lookup finds after each change of the table, and for each operation the ways in which it can
succeed.
-/

namespace DebugInfo.Locals

variable {l l' : Locals} {ids ids' : IdSupply} {id x : EntryId} {stamp function : Stamp}
  {symbol : Symbol} {block : Block}

/-! ## Entries -/

@[simp] theorem get?_empty (id : EntryId) : (∅ : Locals).get? id = none :=
  Std.ExtTreeMap.getElem?_empty

@[simp] theorem symbols_empty (stamp : Stamp) : (∅ : Locals).symbols[stamp]? = none :=
  Std.ExtTreeMap.getElem?_empty

@[simp] theorem scopeByStamp?_empty (stamp : Stamp) (block : Block) :
    (∅ : Locals).scopeByStamp? stamp block = none :=
  Std.ExtTreeMap.getElem?_empty

@[simp] theorem scopeBySymbol?_empty (symbol : Symbol) (block : Block) :
    (∅ : Locals).scopeBySymbol? symbol block = none :=
  Std.ExtTreeMap.getElem?_empty

@[simp] theorem idByStamp?_empty (stamp : Stamp) : (∅ : Locals).idByStamp? stamp = none :=
  Std.ExtTreeMap.getElem?_empty

@[simp] theorem idBySymbol?_empty (symbol : Symbol) : (∅ : Locals).idBySymbol? symbol = none :=
  Std.ExtTreeMap.getElem?_empty

@[simp] theorem blocksOf_empty (stamp : Stamp) : (∅ : Locals).blocksOf stamp = [] := by
  have : (∅ : Locals).blocks[stamp]? = none := Std.ExtTreeMap.getElem?_empty
  rw [blocksOf, this]
  rfl

/-- To put a local changes what is found under its id only. -/
theorem get?_put (l : Locals) (id id' : EntryId) (e : Local) :
    (l.put id e).get? id' = if id = id' then some e else l.get? id' := by
  simp only [put, get?, Std.ExtTreeMap.getElem?_insert, Std.compare_eq_iff_eq]

/-- Children are found exactly where there is a scope. -/
theorem childrenAt_eq_ok_iff {children : List EntryId} :
    l.childrenAt id = .ok children ↔ l.get? id = some (.scope children) := by
  unfold childrenAt
  split <;> simp_all

/-! ## Adding scopes -/

section AddScope

variable (l : Locals) (function : Stamp) (block : Block) (id : EntryId)

/-- A new scope is empty. -/
theorem get?_addScope (id' : EntryId) :
    (l.addScope function block id).get? id' = if id = id' then some (.scope []) else l.get? id' :=
  get?_put l id id' (.scope [])

/-- A new scope is found by its function and block. -/
theorem scopeByStamp?_addScope (function' : Stamp) (block' : Block) :
    (l.addScope function block id).scopeByStamp? function' block' =
      if function = function' ∧ block = block' then some id
      else l.scopeByStamp? function' block' := by
  simp only [addScope, scopeByStamp?, Std.ExtTreeMap.getElem?_insert, Std.compare_eq_iff_eq,
    Prod.mk.injEq]

/-- A new scope is found by the symbol of its function, if it has one. -/
theorem scopeBySymbol?_addScope (symbol : Symbol) (block' : Block) :
    (l.addScope function block id).scopeBySymbol? symbol block' =
      if l.symbols[function]? = some symbol ∧ block = block' then some id
      else l.scopeBySymbol? symbol block' := by
  cases h : l.symbols[function]? with
  | none => simp [addScope, scopeBySymbol?, h]
  | some symbol' =>
    simp only [addScope, scopeBySymbol?, h, Std.ExtTreeMap.getElem?_insert, Std.compare_eq_iff_eq,
      Prod.mk.injEq, Option.some.injEq]

/-- The block of a new scope is listed last. -/
theorem blocksOf_addScope (function' : Stamp) :
    (l.addScope function block id).blocksOf function' =
      if function = function' then l.blocksOf function ++ [block] else l.blocksOf function' := by
  simp only [addScope, blocksOf, Std.ExtTreeMap.getElem?_insert, Std.compare_eq_iff_eq]
  split <;> rfl

end AddScope

/-- A block has its scope already, or gets one under a fresh id. -/
theorem enter_cases (h : l.enter ids function block = (x, ids', l')) :
    (l.scopeByStamp? function block = some x ∧ ids' = ids ∧ l' = l) ∨
    (l.scopeByStamp? function block = none ∧ x = ids.fresh.1 ∧ ids' = ids.fresh.2 ∧
      l' = l.addScope function block x) := by
  unfold enter at h
  split at h
  · next hx =>
    cases h
    exact .inl ⟨hx, rfl, rfl⟩
  · next hx =>
    cases h
    exact .inr ⟨hx, rfl, rfl, rfl⟩

theorem allocated_enter (h : l.enter ids function block = (x, ids', l')) :
    ids.allocated ≤ ids'.allocated := by
  rcases enter_cases h with ⟨-, rfl, -⟩ | ⟨-, -, rfl, -⟩
  · exact Nat.le_refl _
  · exact Nat.le_succ _

/-- A scope inside of another is entered if the other one is found, and goes in there unless it is
there already. -/
theorem enterChild_cases {parent : Block} {answer : Option EntryId}
    (h : l.enterChild ids function parent block = .ok (answer, ids', l')) :
    (l.scopeByStamp? function parent = none ∧ answer = none ∧ ids' = ids ∧ l' = l) ∨
    ∃ parentId x children entered, l.scopeByStamp? function parent = some parentId ∧
      answer = some x ∧ l.enter ids function block = (x, ids', entered) ∧
      entered.get? parentId = some (.scope children) ∧
      (x ∈ children ∧ l' = entered ∨
        x ∉ children ∧ l' = entered.put parentId (.scope (children ++ [x]))) := by
  unfold enterChild at h
  split at h
  · next hparent =>
    cases h
    exact .inl ⟨hparent, rfl, rfl, rfl⟩
  · next parentId hparent =>
    simp only [bind, Except.bind, pure, Except.pure] at h
    split at h
    · cases h
    · obtain ⟨⟨x, ids₁, entered⟩, henter⟩ : ∃ r, l.enter ids function block = r := ⟨_, rfl⟩
      rw [henter] at h
      dsimp only at h
      split at h
      · cases h
      · next children hchildren =>
        cases h
        refine .inr ⟨parentId, x, children, entered, hparent, rfl, henter,
          childrenAt_eq_ok_iff.1 hchildren, ?_⟩
        split
        · next hx => exact .inl ⟨List.contains_iff_mem.1 hx, rfl⟩
        · next hx => exact .inr ⟨fun hmem => hx (List.contains_iff_mem.2 hmem), rfl⟩

/-! ## Variables -/

/-- Let a stamp lead to a variable. -/
def addStamp (l : Locals) (stamp : Stamp) (id : EntryId) : Locals :=
  { l with variablesByStamp := l.variablesByStamp.insert stamp id }

def addSymbol (l : Locals) (symbol : Symbol) (id : EntryId) : Locals :=
  { l with variablesBySymbol := l.variablesBySymbol.insert symbol id }

theorem idByStamp?_addStamp (l : Locals) (stamp stamp' : Stamp) (id : EntryId) :
    (l.addStamp stamp id).idByStamp? stamp' = if stamp = stamp' then some id
      else l.idByStamp? stamp' := by
  simp only [addStamp, idByStamp?, Std.ExtTreeMap.getElem?_insert, Std.compare_eq_iff_eq]

theorem idBySymbol?_addSymbol (l : Locals) (symbol symbol' : Symbol) (id : EntryId) :
    (l.addSymbol symbol id).idBySymbol? symbol' = if symbol = symbol' then some id
      else l.idBySymbol? symbol' := by
  simp only [addSymbol, idBySymbol?, Std.ExtTreeMap.getElem?_insert, Std.compare_eq_iff_eq]

/-- A local is found by its stamp, or it is new and gets the stamp. -/
theorem declare_cases {v : LocalVariable} (h : l.declare ids stamp v = (id, ids', l')) :
    (l.idByStamp? stamp = some id ∧ ids' = ids ∧ l' = l) ∨
    (l.idByStamp? stamp = none ∧ id = ids.fresh.1 ∧ ids' = ids.fresh.2 ∧
      l' = (l.put id (.variable v)).addStamp stamp id) := by
  unfold declare at h
  split at h
  · next hid =>
    cases h
    exact .inl ⟨hid, rfl, rfl⟩
  · next hid =>
    cases h
    exact .inr ⟨hid, rfl, rfl, rfl⟩

/-- If anything changes, then the variable goes into the scope of that block. -/
theorem attach_cases {b : Bool} (h : l.attach function stamp block = .ok (b, l')) :
    l' = l ∨ ∃ var scope children, l.idByStamp? stamp = some var ∧
      l.scopeByStamp? function block = some scope ∧ l.get? scope = some (.scope children) ∧
      l' = l.put scope (.scope (children ++ [var])) := by
  unfold attach at h
  split at h
  · next var scope hvar hscope =>
    cases hchildren : l.childrenAt scope with
    | error e =>
      rw [hchildren] at h
      cases h
    | ok children =>
      rw [hchildren] at h
      cases h
      exact .inr ⟨var, scope, children, hvar, hscope, childrenAt_eq_ok_iff.1 hchildren, rfl⟩
  · cases h
    exact .inl rfl

/-- The symbol is written into the variable that has the stamp. -/
theorem bindSymbol_cases (h : l.bindSymbol stamp symbol = some (id, l')) :
    ∃ v, l.idByStamp? stamp = some id ∧ l.get? id = some (.variable v) ∧
      l' = (l.put id (.variable { v with symbol := some symbol })).addSymbol symbol id := by
  unfold bindSymbol at h
  split at h
  · cases h
  · next id' hid =>
    split at h
    · next v hv =>
      cases h
      exact ⟨v, hid, hv, rfl⟩
    · cases h

/-! ## Linking symbols -/

/-- The table with another index of scopes by symbol. -/
def withScopesBySymbol (l : Locals) (m : Std.ExtTreeMap (Symbol × Block) EntryId) : Locals :=
  { l with scopesBySymbol := m }

/-- To link one block changes only where the scopes are found by symbol. -/
theorem linkBlock_eq (l : Locals) (function : Stamp) (symbol : Symbol) (block : Block) :
    ∃ m, l.linkBlock function symbol block = l.withScopesBySymbol m ∧
      ∀ symbol' block', m[(symbol', block')]? =
        if symbol = symbol' ∧ block = block' then
          (l.scopeByStamp? function block).or (l.scopeBySymbol? symbol' block')
        else l.scopeBySymbol? symbol' block' := by
  unfold linkBlock
  split
  · next id hid =>
    refine ⟨_, rfl, fun symbol' block' => ?_⟩
    rw [hid]
    simp only [Std.ExtTreeMap.getElem?_insert, Std.compare_eq_iff_eq, Prod.mk.injEq,
      Option.some_or]
    rfl
  · next hid =>
    refine ⟨_, rfl, fun symbol' block' => ?_⟩
    rw [hid, Option.none_or, ite_self]
    rfl

/-- To link several blocks changes only where the scopes are found by symbol. -/
theorem foldl_linkBlock_eq (l : Locals) (function : Stamp) (symbol : Symbol) (blocks : List Block) :
    ∃ m, blocks.foldl (fun l block => l.linkBlock function symbol block) l =
        l.withScopesBySymbol m ∧
      ∀ symbol' block', m[(symbol', block')]? =
        if symbol = symbol' ∧ block' ∈ blocks then
          (l.scopeByStamp? function block').or (l.scopeBySymbol? symbol' block')
        else l.scopeBySymbol? symbol' block' := by
  induction blocks generalizing l with
  | nil => exact ⟨l.scopesBySymbol, rfl, fun symbol' block' => by simp [scopeBySymbol?]⟩
  | cons block blocks ih =>
    obtain ⟨m₁, heq₁, hm₁⟩ := linkBlock_eq l function symbol block
    obtain ⟨m, heq, hm⟩ := ih (l.withScopesBySymbol m₁)
    refine ⟨m, by rw [List.foldl_cons, heq₁, heq]; rfl, fun symbol' block' => ?_⟩
    have hstamp : (l.withScopesBySymbol m₁).scopeByStamp? = l.scopeByStamp? := rfl
    have hsymbol : (l.withScopesBySymbol m₁).scopeBySymbol? symbol' block' =
        m₁[(symbol', block')]? := rfl
    rw [hm, hstamp, hsymbol, hm₁]
    by_cases hsame : symbol = symbol'
    · by_cases hblock : block = block'
      · subst hsame hblock
        simp [← Option.or_assoc]
      · simp [hsame, hblock, Ne.symm hblock]
    · simp [hsame]

/-- Linking a symbol to a stamp changes no scope: the symbol leads to the scopes of the stamp, and
where there is none, it leads where it led before. -/
theorem linkSymbol_eq (l : Locals) (function : Stamp) (symbol : Symbol) :
    ∃ m, (l.linkSymbol function symbol).2 =
        { l with symbols := l.symbols.insert function symbol, scopesBySymbol := m } ∧
      ∀ symbol' block, m[(symbol', block)]? =
        if symbol = symbol' ∧ block ∈ l.blocksOf function then
          (l.scopeByStamp? function block).or (l.scopeBySymbol? symbol' block)
        else l.scopeBySymbol? symbol' block :=
  foldl_linkBlock_eq { l with symbols := l.symbols.insert function symbol } function symbol
    (l.blocksOf function)

end DebugInfo.Locals
