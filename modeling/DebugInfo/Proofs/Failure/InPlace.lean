import DebugInfo.Proofs.Definitions.Convergence
import DebugInfo.Proofs.Failure.Tables
import DebugInfo.TypeTable.Update

/-!
# Tables that are written in place

An operation on a table gives a new table, or none if it fails.  It may as well write into the
table that there is, and then a failure leaves behind whatever was written before it.  Here are
the operations in this form, with their lookups, checks and writes in order.  Ids are taken and
scopes are entered before the last check in some of them, and still it makes no difference: a
check that can fail comes before anything is written.
-/

namespace DebugInfo

/-- A computation that writes a table and takes ids as it goes.  What is written before a failure
stays written. -/
abbrev InPlace (τ : Type) := ExceptT TableError (StateM (IdSupply × τ))

namespace InPlace

variable {τ α β : Type}

def fresh : InPlace τ EntryId := fun s => (.ok s.1.fresh.1, s.1.fresh.2, s.2)

def write (f : τ → τ) : InPlace τ Unit := fun s => (.ok (), s.1, f s.2)

def look (f : τ → α) : InPlace τ α := fun s => (.ok (f s.2), s)

def check (f : τ → Except TableError α) : InPlace τ α := fun s => (f s.2, s)

/-- The new state is written at the end, and only if there is one. -/
def settle (f : IdSupply × τ → Except TableError (α × IdSupply × τ)) : InPlace τ α := fun s =>
  match f s with
  | .ok (a, s') => (.ok a, s')
  | .error e => (.error e, s)

variable {s s' : IdSupply × τ} {m : InPlace τ α} {k : α → InPlace τ β} {a : α} {e : TableError}

/-- What is looked at is there, and looking changes nothing. -/
theorem look_bind (f : τ → α) (k : α → InPlace τ β) (s : IdSupply × τ) :
    (look f >>= k) s = k (f s.2) s :=
  rfl

/-- What is written is there for what follows. -/
theorem write_bind (f : τ → τ) (k : Unit → InPlace τ β) (s : IdSupply × τ) :
    (write f >>= k) s = k () (s.1, f s.2) :=
  rfl

theorem bind_of_ok (h : m s = (.ok a, s')) : (m >>= k) s = k a s' := by
  show ExceptT.bindCont k (m s).1 (m s).2 = _
  rw [h]
  rfl

/-- Nothing is done after a failure, and what was done before stays. -/
theorem bind_of_error (h : m s = (.error e, s')) : (m >>= k) s = (.error e, s') := by
  show ExceptT.bindCont k (m s).1 (m s).2 = _
  rw [h]
  rfl

theorem check_of_ok {f : τ → Except TableError α} (h : f s.2 = .ok a) : check f s = (.ok a, s) := by
  rw [check, h]

/-- A check that fails leaves the table as it is. -/
theorem check_of_error {f : τ → Except TableError α} (h : f s.2 = .error e) :
    check f s = (.error e, s) := by
  rw [check, h]

theorem settle_of_ok {f : IdSupply × τ → Except TableError (α × IdSupply × τ)}
    (h : f s = .ok (a, s')) : settle f s = (.ok a, s') := by
  rw [settle, h]

theorem settle_of_error {f : IdSupply × τ → Except TableError (α × IdSupply × τ)}
    (h : f s = .error e) : settle f s = (.error e, s) := by
  rw [settle, h]

/-- What is answered may be changed afterwards. -/
theorem map_settle (f : α → β) (g : IdSupply × τ → Except TableError (α × IdSupply × τ)) :
    f <$> settle g = settle fun s => (g s).map fun (a, s') => (f a, s') := by
  funext s
  cases hg : g s with
  | error e =>
    simp only [settle, hg, Except.map]
    exact bind_of_error (settle_of_error hg)
  | ok r =>
    simp only [settle, hg, Except.map]
    exact bind_of_ok (settle_of_ok hg)

/-- What is checked first and then only written settles. -/
theorem check_bind_eq_settle {f : τ → Except TableError α} {r : α → β × IdSupply × τ}
    {g : IdSupply × τ → Except TableError (β × IdSupply × τ)} (hg : g s = (f s.2).map r)
    (hk : ∀ a, f s.2 = .ok a → k a s = (.ok (r a).1, (r a).2)) :
    (check f >>= k) s = settle g s := by
  cases hf : f s.2 with
  | error e =>
    rw [hf] at hg
    rw [settle_of_error hg]
    exact bind_of_error (check_of_error hf)
  | ok a =>
    rw [hf] at hg
    rw [settle_of_ok hg, ← hk a hf]
    exact bind_of_ok (check_of_ok hf)

/-- What settles leaves the state as it is where it fails. -/
theorem settle_eq_error_iff {f : IdSupply × τ → Except TableError (α × IdSupply × τ)} :
    settle f s = (.error e, s') ↔ f s = .error e ∧ s' = s := by
  cases hf : f s with
  | ok r =>
    rw [settle_of_ok hf]
    exact iff_of_false (fun h => nomatch h) fun h => nomatch h.1
  | error e' =>
    rw [settle_of_error hf]
    constructor
    · rintro ⟨⟩
      exact ⟨rfl, rfl⟩
    · rintro ⟨⟨⟩, rfl⟩
      rfl

end InPlace

open InPlace

/-! ## Definitions -/

namespace Definitions

/-- The variable is written again only if it ceases to be tentative. -/
def declareVariableInPlace (stamp : Stamp) (v : Variable) (defining : Bool) :
    InPlace Definitions EntryId := do
  match ← look (·.idByStamp? stamp) with
  | none =>
      let id ← fresh
      write (·.put id (.variable v))
      write (·.addStamp stamp id)
      return id
  | some id =>
      let old ← check (·.variableAt id)
      if defining && old.isTentative then
        write (·.put id (.variable { old with isTentative := false }))
        return id
      else
        return id

def declarePrototypeInPlace (s : Signature) : InPlace Definitions EntryId := do
  match ← look (·.idOf? s) with
  | some id =>
      let _ ← check (·.functionAt id)
      write fun g => { g with byStamp := g.byStamp.insertIfNew s.stamp id }
      return id
  | none =>
      let id ← fresh
      write (·.addStamp s.stamp id)
      write (·.addName s.name id)
      write (·.put id (.function s.declared))
      return id

/-- The id is there before the function that may be under it is looked at. -/
def defineFunctionInPlace (s : Signature) (params : List Parameter) :
    InPlace Definitions EntryId := do
  let existing ← look (·.idOf? s)
  let id ← existing.elim fresh pure
  let f ← existing.elim (pure (s.defined params)) fun id => do
    let old ← check (·.functionAt id)
    return redefined s params old
  write (·.addStamp s.stamp id)
  write (·.addName s.name id)
  write (·.put id (.function f))
  return id

def bindSymbolInPlace (stamp : Stamp) (symbol : Symbol) : InPlace Definitions (Option EntryId) := do
  match ← look (·.idByStamp? stamp) with
  | none => return none
  | some id =>
    match ← look (·.get? id) with
    | none => return none
    | some d =>
        write (·.put id (d.withSymbol symbol))
        write (·.addSymbol symbol id)
        return some id

def bindCodeInPlace (symbol : Symbol) (code : CodeRange) : InPlace Definitions Bool := do
  match ← look (·.idBySymbol? symbol) with
  | none => return false
  | some id =>
      let f ← check (·.functionAt id)
      write (·.put id (.function { f with code := some code }))
      return true

def bindParameterInPlace (function param : Stamp) (symbol : Symbol) :
    InPlace Definitions Bool := do
  match ← look (·.idByStamp? function) with
  | none => return false
  | some id =>
      let f ← check (·.functionAt id)
      if f.params.any (·.stamp == param) then
        let params :=
          updateFirst (·.stamp == param) (fun p => { p with symbol := some symbol }) f.params
        write (·.put id (.function { f with params }))
        return true
      else
        return false

def setRootScopeInPlace (id scope : EntryId) : InPlace Definitions Unit := do
  let f ← check (·.functionAt id)
  write (·.put id (.function { f with rootScope := some scope }))
  return ()

/-- Step by step, a variable is declared as it is all at once. -/
theorem declareVariableInPlace_eq (stamp : Stamp) (v : Variable) (defining : Bool) :
    declareVariableInPlace stamp v defining =
      settle fun s => s.2.declareVariable s.1 stamp v defining := by
  funext s
  rw [declareVariableInPlace, look_bind]
  cases hid : s.2.idByStamp? stamp with
  | none =>
    simp only [settle, declareVariable, hid]
    rfl
  | some id =>
    refine check_bind_eq_settle (by rw [declareVariable, hid]) ?_
    intro old hold
    split
    · next hends =>
      obtain ⟨rfl, htentative⟩ := Bool.and_eq_true_iff.1 hends
      rw [htentative]
      rfl
    · next hkept =>
      have hsame : (old.isTentative && !defining) = old.isTentative := by
        revert hkept
        cases defining <;> cases old.isTentative <;> simp
      rw [hsame, put_of_get? (variableAt_eq_ok_iff.1 hold)]
      rfl

/-- Step by step, a prototype is declared as it is all at once. -/
theorem declarePrototypeInPlace_eq (sig : Signature) :
    declarePrototypeInPlace sig = settle fun s => s.2.declarePrototype s.1 sig := by
  funext s
  rw [declarePrototypeInPlace, look_bind]
  cases hid : s.2.idOf? sig with
  | none =>
    simp only [settle, declarePrototype, hid]
    rfl
  | some id =>
    refine check_bind_eq_settle (by rw [declarePrototype, hid]) ?_
    exact fun _ _ => rfl

/-- Step by step, a function is defined as it is all at once.  The check comes before the first
write. -/
theorem defineFunctionInPlace_eq (sig : Signature) (params : List Parameter) :
    defineFunctionInPlace sig params = settle fun s => s.2.defineFunction s.1 sig params := by
  funext s
  rw [defineFunctionInPlace, look_bind]
  cases hid : s.2.idOf? sig with
  | none =>
    simp only [settle, defineFunction, hid]
    rfl
  | some id =>
    -- What is kept of the function is put together between the check and the writes.
    have hassoc {β : Type} (k : Function → InPlace Definitions β) :
        ((do
          let old ← check fun g : Definitions => g.functionAt id
          return redefined sig params old) >>= k) =
        check (fun g : Definitions => g.functionAt id) >>= fun old =>
          k (redefined sig params old) := by
      rw [bind_assoc]
      rfl
    refine (congrFun (hassoc _) s).trans (check_bind_eq_settle (by rw [defineFunction, hid]) ?_)
    exact fun _ _ => rfl

/-- The entry is written first and the index afterwards, and nothing fails in between. -/
theorem bindSymbolInPlace_eq (stamp : Stamp) (symbol : Symbol) :
    bindSymbolInPlace stamp symbol = settle fun s => .ok (match s.2.bindSymbol stamp symbol with
      | none => (none, s)
      | some (id, g) => (some id, s.1, g)) := by
  funext s
  rw [bindSymbolInPlace, look_bind]
  cases hid : s.2.idByStamp? stamp with
  | none =>
    simp only [settle, bindSymbol, hid, bind, Option.bind]
    rfl
  | some id =>
    refine (look_bind _ _ s).trans ?_
    cases hd : s.2.get? id with
    | none =>
      simp only [settle, bindSymbol, hid, hd, bind, Option.bind]
      rfl
    | some d =>
      simp only [settle, bindSymbol, hid, hd, bind, Option.bind]
      rfl

theorem bindCodeInPlace_eq (symbol : Symbol) (code : CodeRange) :
    bindCodeInPlace symbol code =
      settle fun s => (s.2.bindCode symbol code).map fun (b, g) => (b, s.1, g) := by
  funext s
  rw [bindCodeInPlace, look_bind]
  cases hid : s.2.idBySymbol? symbol with
  | none =>
    simp only [settle, bindCode, hid, Except.map]
    rfl
  | some id =>
    refine check_bind_eq_settle (by rw [bindCode, hid, map_map]) ?_
    exact fun _ _ => rfl

/-- The parameter is searched for in the function that was checked. -/
theorem bindParameterInPlace_eq (function param : Stamp) (symbol : Symbol) :
    bindParameterInPlace function param symbol =
      settle fun s => (s.2.bindParameter function param symbol).map fun (b, g) => (b, s.1, g) := by
  funext s
  rw [bindParameterInPlace, look_bind]
  cases hid : s.2.idByStamp? function with
  | none =>
    simp only [settle, bindParameter, hid, Except.map]
    rfl
  | some id =>
    refine check_bind_eq_settle (by rw [bindParameter, hid, map_map]) ?_
    intro f _
    simp only [Function.comp_apply]
    split <;> rfl

theorem setRootScopeInPlace_eq (id scope : EntryId) :
    setRootScopeInPlace id scope =
      settle fun s => (s.2.setRootScope id scope).map fun g => ((), s.1, g) := by
  funext s
  refine check_bind_eq_settle (by rw [setRootScope, map_map]) ?_
  exact fun _ _ => rfl

/-- Each operation on the table, in place. -/
def performInPlace : Operation → InPlace Definitions (Option EntryId)
  | .declareVariable stamp v defining => some <$> declareVariableInPlace stamp v defining
  | .declarePrototype s => some <$> declarePrototypeInPlace s
  | .defineFunction s params => some <$> defineFunctionInPlace s params
  | .bindSymbol stamp symbol => bindSymbolInPlace stamp symbol
  | .bindCode symbol code => (fun _ => none) <$> bindCodeInPlace symbol code
  | .bindParameter function param symbol =>
      (fun _ => none) <$> bindParameterInPlace function param symbol
  | .setRootScope id scope => (fun _ => none) <$> setRootScopeInPlace id scope
  | .markPrinted name => (fun _ => none) <$> write (·.markPrinted name)
  | .skip => (fun _ => none) <$> fresh
  | .clear ids => fun s => (.ok none, ids, s.2.clear)

/-- Step by step or all at once, an operation does the same. -/
theorem performInPlace_eq (op : Operation) : performInPlace op = settle (perform · op) := by
  cases op with
  | declareVariable stamp v defining =>
    rw [performInPlace, declareVariableInPlace_eq, map_settle]
    rfl
  | declarePrototype s =>
    rw [performInPlace, declarePrototypeInPlace_eq, map_settle]
    rfl
  | defineFunction s params =>
    rw [performInPlace, defineFunctionInPlace_eq, map_settle]
    rfl
  | bindSymbol stamp symbol =>
    rw [performInPlace, bindSymbolInPlace_eq]
    funext s
    simp only [settle, perform]
    cases s.2.bindSymbol stamp symbol <;> rfl
  | bindCode symbol code =>
    rw [performInPlace, bindCodeInPlace_eq, map_settle]
    simp only [map_map]
    rfl
  | bindParameter function param symbol =>
    rw [performInPlace, bindParameterInPlace_eq, map_settle]
    simp only [map_map]
    rfl
  | setRootScope id scope =>
    rw [performInPlace, setRootScopeInPlace_eq, map_settle]
    simp only [map_map]
    rfl
  | markPrinted | skip | clear => rfl

/-- A refused operation writes nothing and takes no id. -/
theorem performInPlace_eq_error_iff {op : Operation} {s s' : State} {e : TableError} :
    performInPlace op s = (.error e, s') ↔ perform s op = .error e ∧ s' = s := by
  rw [performInPlace_eq, settle_eq_error_iff]

end Definitions

/-! ## Locals -/

namespace Locals

def addScopeInPlace (function : Stamp) (block : Block) (id : EntryId) : InPlace Locals EntryId := do
  write (·.put id (.scope []))
  write (·.addScopeStamp function block id)
  write fun l => { l with blocks := l.blocks.insert function (l.blocksOf function ++ [block]) }
  match ← look (·.symbols[function]?) with
  | some symbol =>
      write (·.addScopeSymbol symbol block id)
      return id
  | none => return id

def enterInPlace (function : Stamp) (block : Block) : InPlace Locals EntryId := do
  match ← look (·.scopeByStamp? function block) with
  | some id => return id
  | none => addScopeInPlace function block (← fresh)

/-- The outer scope is checked before the inner one is entered, and looked at again afterwards. -/
def enterChildInPlace (function : Stamp) (parent block : Block) :
    InPlace Locals (Option EntryId) := do
  match ← look (·.scopeByStamp? function parent) with
  | none => return none
  | some parentId =>
      let _ ← check (·.childrenAt parentId)
      let id ← enterInPlace function block
      let children ← check (·.childrenAt parentId)
      if children.contains id then
        return some id
      else
        write (·.put parentId (.scope (children ++ [id])))
        return some id

def attachInPlace (function stamp : Stamp) (block : Block) : InPlace Locals Bool := do
  match ← look (·.idByStamp? stamp), ← look (·.scopeByStamp? function block) with
  | some variableId, some scopeId =>
      let children ← check (·.childrenAt scopeId)
      write (·.put scopeId (.scope (children ++ [variableId])))
      return true
  | _, _ => return false

/-- A scope is added by four writes, none of which can fail. -/
theorem addScopeInPlace_apply (function : Stamp) (block : Block) (id : EntryId)
    (s : IdSupply × Locals) :
    addScopeInPlace function block id s = (.ok id, s.1, s.2.addScope function block id) := by
  have hput : ((s.2.put id (.scope [])).addScopeStamp function block id).symbols[function]? =
      s.2.symbols[function]? := rfl
  cases hsymbol : s.2.symbols[function]? with
  | some symbol =>
    simp only [addScopeInPlace, addScope, write_bind, look_bind, hput, hsymbol]
    rfl
  | none =>
    simp only [addScopeInPlace, addScope, write_bind, look_bind, hput, hsymbol]
    rfl

/-- To enter a block does not fail. -/
theorem enterInPlace_apply (function : Stamp) (block : Block) (s : IdSupply × Locals) :
    enterInPlace function block s =
      (.ok (s.2.enter s.1 function block).1, (s.2.enter s.1 function block).2) := by
  rw [enterInPlace, look_bind]
  cases hid : s.2.scopeByStamp? function block with
  | some id =>
    rw [enter, hid]
    rfl
  | none =>
    rw [enter, hid]
    exact addScopeInPlace_apply function block s.1.fresh.1 (s.1.fresh.2, s.2)

/-- The outer scope is still one when it is looked at again, so nothing fails after a write. -/
theorem enterChildInPlace_eq (function : Stamp) (parent block : Block) :
    enterChildInPlace function parent block =
      settle fun s => s.2.enterChild s.1 function parent block := by
  funext s
  rw [enterChildInPlace, look_bind]
  cases hid : s.2.scopeByStamp? function parent with
  | none =>
    simp only [settle, enterChild, hid]
    rfl
  | some parentId =>
    cases hchildren : s.2.childrenAt parentId with
    | error e =>
      simp only [settle, enterChild, hid, hchildren, bind, Except.bind]
      exact bind_of_error (check_of_error hchildren)
    | ok children =>
      obtain ⟨children', hchildren'⟩ := childrenAt_enter s.1 function block hchildren
      simp only [settle, enterChild, hid, hchildren, hchildren', bind, Except.bind, pure,
        Except.pure]
      refine (bind_of_ok (check_of_ok hchildren)).trans ?_
      refine (bind_of_ok (enterInPlace_apply function block s)).trans ?_
      refine (bind_of_ok (check_of_ok hchildren')).trans ?_
      split <;> rfl

/-- Step by step, a variable is attached as it is all at once. -/
theorem attachInPlace_eq (function stamp : Stamp) (block : Block) :
    attachInPlace function stamp block =
      settle fun s => (s.2.attach function stamp block).map fun (b, l) => (b, s.1, l) := by
  funext s
  rw [attachInPlace, look_bind, look_bind]
  cases hvar : s.2.idByStamp? stamp with
  | none =>
    simp only [settle, attach, hvar, Except.map]
    rfl
  | some var =>
    cases hscope : s.2.scopeByStamp? function block with
    | none =>
      simp only [settle, attach, hvar, hscope, Except.map]
      rfl
    | some scope =>
      refine check_bind_eq_settle (by rw [attach, hvar, hscope, Definitions.map_map]) ?_
      exact fun _ _ => rfl

variable {s s' : IdSupply × Locals} {function stamp : Stamp} {parent block : Block} {e : TableError}

/-- Where a block is refused inside of another one, nothing has been written. -/
theorem enterChildInPlace_eq_error_iff :
    enterChildInPlace function parent block s = (.error e, s') ↔
      s.2.enterChild s.1 function parent block = .error e ∧ s' = s := by
  rw [enterChildInPlace_eq, settle_eq_error_iff]

/-- Where a variable is refused, nothing has been written. -/
theorem attachInPlace_eq_error_iff :
    attachInPlace function stamp block s = (.error e, s') ↔
      s.2.attach function stamp block = .error e ∧ s' = s := by
  rw [attachInPlace_eq, settle_eq_error_iff, Definitions.map_eq_error_iff]

end Locals

/-! ## Types -/

namespace TypeTable

/-- The update is made of a copy, which is written back if it is another one. -/
def updateInPlace (id : EntryId) (u : TypeUpdate) : InPlace TypeTable Bool := do
  match ← look (·.get? id) with
  | none => throw (.unknownId .types id)
  | some d =>
    match u.result? d with
    | none => throw (.unexpectedVariant .types id u.expected d.kindName)
    | some d' =>
      if d' = d then
        return false
      else
        write fun table => { table with descriptors := table.descriptors.insert id d' }
        return true

/-- Step by step, a type is updated as it is all at once. -/
theorem updateInPlace_eq (id : EntryId) (u : TypeUpdate) :
    updateInPlace id u =
      settle fun s => (s.2.update id u).map fun (changed, table) => (changed, s.1, table) := by
  funext s
  rw [updateInPlace, look_bind]
  cases hd : s.2.get? id with
  | none =>
    simp only [settle, update, hd, Except.map]
    rfl
  | some d =>
    cases hd' : u.result? d with
    | none =>
      simp only [settle, update, hd, hd', Except.map]
      rfl
    | some d' =>
      simp only [settle, update, hd, hd']
      split <;> rfl

/-- Where an update is refused, nothing has been written. -/
theorem updateInPlace_eq_error_iff {s s' : IdSupply × TypeTable} {id : EntryId} {u : TypeUpdate}
    {e : TableError} :
    updateInPlace id u s = (.error e, s') ↔ s.2.update id u = .error e ∧ s' = s := by
  rw [updateInPlace_eq, settle_eq_error_iff, Definitions.map_eq_error_iff]

end TypeTable

end DebugInfo
