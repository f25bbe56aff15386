import DebugInfo.Proofs.Links.Unit
import DebugInfo.Proofs.Unit.Declarations

/-!
# No dangling ids

In whatever order operations are applied to a unit, and whether they fail or not, every id in its
tables leads to an entry of the right kind.  The one thing that is asked of the caller is that the
ids that are given to an update as those of types are ids of types.
-/

namespace DebugInfo.CompilationUnit

/-! ## Declarations -/

/-- The unit is linked, and the known ids are those of types.  Between interning a type and
recording what refers to it, no table but that of types has its id. -/
structure Knows (known : List EntryId) (u : CompilationUnit) : Prop where
  linked : Linked u
  has : ∀ t ∈ known, u.types.Has t

/-- Where nothing dangles, all of no ids are known. -/
theorem Linked.knows {u : CompilationUnit} (h : Linked u) : Knows [] u :=
  ⟨h, fun _ ht => nomatch ht⟩

/-- The ids that are known stay so throughout a declaration. -/
theorem knows_stable : Stable (fun _ => True) Knows where
  forget h hsub := ⟨h.linked, fun t ht => h.has t (hsub ht)⟩
  noteFile h _ := ⟨{ h.linked with }, h.has⟩
  intern h t := by
    obtain ⟨hlinked, hextends, hhas⟩ := h.linked.internType t
    refine ⟨hlinked, fun t' ht' => ?_⟩
    rcases List.mem_cons.1 ht' with rfl | ht'
    · exact hhas
    · exact hextends.has (h.has t' ht')
  update h _ _ _ _ hrefs _ hu := by
    obtain ⟨hclosed, hextends⟩ := h.linked.types.update hu fun ref href => h.has ref (hrefs href)
    refine ⟨h.linked.withTypes hclosed hextends (Nat.le_refl _), fun t ht => ?_⟩
    exact hextends.has (h.has t ht)
  recordVariable h _ _ _ _ _ _ hv _ _ ho := ⟨h.linked.declareVariable (h.has _ hv) ho, h.has⟩
  recordPrototype h _ _ _ _ hs _ ho :=
    ⟨h.linked.declarePrototype (fun t ht => h.has t (hs ht)) ho, h.has⟩
  recordFunction h _ _ _ _ _ hs _ ho :=
    ⟨h.linked.defineFunction (fun t ht => h.has t (hs ht)) ho, h.has⟩
  recordLocal h _ _ _ _ _ hv _ _ hl :=
    ⟨h.linked.withLocals (h.linked.locals.declare (h.has _ hv) hl), h.has⟩

/-! ## Other operations -/

theorem attach_preserves (function stamp : Stamp) (block : Block) :
    Preserves Linked (attach function stamp block) := by
  refine Ensures.bind .get fun u => ?_
  split
  · refine .onLocals (fun u b ids l h ho => ?_) fun _ h => h
    obtain ⟨⟨b, l⟩, ho, heq⟩ := Definitions.map_eq_ok_iff.1 ho
    cases heq
    exact h.withLocals (h.locals.attach ho)
  · exact .pure fun _ h => h

theorem bindLocal_preserves (stamp : Stamp) (symbol : Symbol) :
    Preserves Linked (liftM (bindLocal stamp symbol) : UnitM (Option EntryId)) := by
  refine .lift fun u h => ?_
  unfold bindLocal
  split
  · exact h
  · next hl => exact h.withLocals (h.locals.bindSymbol hl)

theorem enterFunction_preserves (function : Stamp) (block : Block) :
    Preserves Linked (enterFunction function block) :=
  Ensures.iff_snd.2 fun _ h => h.enterFunction function block

theorem enterChild_preserves (function : Stamp) (parent block : Block) :
    Preserves Linked (enterChild function parent block) :=
  Ensures.iff_snd.2 fun _ h => h.enterChild function parent block

theorem bindSymbol_preserves (stamp : Stamp) (symbol : Symbol) :
    Preserves Linked (liftM (bindSymbol stamp symbol) : UnitM (Option EntryId)) :=
  .lift fun _ h => h.bindSymbol stamp symbol

theorem bindCode_preserves (symbol : Symbol) (code : CodeRange) :
    Preserves Linked (bindCode symbol code) :=
  .changeDefinitions (fun _ _ _ h ho => h.bindCode ho) fun _ h => h

theorem bindParameter_preserves (function param : Stamp) (symbol : Symbol) :
    Preserves Linked (bindParameter function param symbol) :=
  .changeDefinitions (fun _ _ _ h ho => h.bindParameter ho) fun _ h => h

theorem emit_preserves (e : Emission) : Preserves Linked (liftM (emit e) : UnitM Unit) :=
  .lift fun _ h => h.emit e

/-! ## Runs -/

variable {σ : Type}

/-- The ids that are given to an operation as those of types.  Only an update is given any, as the
target of a typedef name or in a list of members; a declaration interns what it refers to. -/
def Operation.typeIds : Operation σ → List EntryId
  | .updateType _ update => update.references
  | _ => []

/-- Each operation is given ids that are those of types at that moment. -/
def RefersToTypes (u : CompilationUnit) : List (Operation σ) → Prop
  | [] => True
  | op :: ops => (∀ t ∈ op.typeIds, u.types.Has t) ∧ RefersToTypes (u.apply op).2 ops

instance decidableRefersToTypes (u : CompilationUnit) :
    (ops : List (Operation σ)) → Decidable (u.RefersToTypes ops)
  | [] => .isTrue trivial
  | op :: ops =>
    have := decidableRefersToTypes (u.apply op).2 ops
    inferInstanceAs (Decidable (_ ∧ _))

theorem linked_of_empty {u : CompilationUnit} {mode : KeyMode} (htypes : u.types = .empty mode)
    (hdefinitions : u.definitions = ∅) (hlocals : u.locals = ∅) (hlifetimes : u.lifetimes = ∅) :
    Linked u := by
  constructor
  · rw [htypes]
    exact .empty u.ids mode
  · rw [hdefinitions]
    exact Definitions.grounded_empty u.ids
  · intro id d hd
    rw [hdefinitions, Definitions.get?_empty] at hd
    cases hd
  · rw [hlocals]
    exact Locals.linked_empty _ u.ids
  · intro x spans hx
    have hnone : u.lifetimes.spans[x]? = none := by
      rw [hlifetimes]
      exact Std.ExtTreeMap.getElem?_empty
    rw [hnone] at hx
    cases hx
  · intro x st hx
    have hnone : u.lifetimes.storage? x = none := by
      rw [hlifetimes]
      exact Std.ExtTreeMap.getElem?_empty
    rw [hnone] at hx
    cases hx

/-- Nothing dangles after an operation that refers to types only. -/
theorem apply_linked {u : CompilationUnit} (h : Linked u) (op : Operation σ)
    (hop : ∀ t ∈ op.typeIds, u.types.Has t) : Linked (u.apply op).2 := by
  cases op with
  | restart name => exact linked_of_empty rfl rfl rfl rfl
  | freshId =>
    have hgrounded := h.grounded.mono (Nat.le_succ u.ids.allocated)
    exact h.withDefinitions (Nat.le_succ _) hgrounded h.definitions
  | internType t => exact (h.internType t).1
  | updateType id update =>
    have hlearns := updateType_learns knows_stable update.references id (List.Subset.refl _)
      fun _ _ => trivial
    have hkeeps := hlearns.weaken (fun _ hu => hu) fun _ _ hu => knows_stable.nil hu
    exact ((hkeeps.answer _).apply ⟨h, hop⟩).linked
  | declare d => exact (((declare_stable knows_stable d trivial).answer _).apply h.knows).linked
  | declareLocal d =>
    exact (((declareLocal_stable knows_stable d trivial).answer _).apply h.knows).linked
  | enterFunction function block => exact ((enterFunction_preserves function block).answer _).apply h
  | enterChild function parent block =>
    exact ((enterChild_preserves function parent block).answer _).apply h
  | attach function stamp block => exact ((attach_preserves function stamp block).answer _).apply h
  | bindSymbol stamp symbol => exact ((bindSymbol_preserves stamp symbol).answer _).apply h
  | bindLocal stamp symbol => exact ((bindLocal_preserves stamp symbol).answer _).apply h
  | bindCode symbol code => exact ((bindCode_preserves symbol code).answer _).apply h
  | bindParameter function param symbol =>
    exact ((bindParameter_preserves function param symbol).answer _).apply h
  | emit e => exact ((emit_preserves e).answer _).apply h
  | setSectionStart name start => exact { h with }
  | setSectionStop name stop => exact { h with }
  | enumerate cb start => exact { h with }
  | addLabel function position addr => exact { h with }
  | markPrinted name =>
    exact h.withDefinitions (Nat.le_refl _) (h.grounded.markPrinted name) h.definitions

theorem runFrom_linked {u : CompilationUnit} (h : Linked u) {ops : List (Operation σ)}
    (hops : u.RefersToTypes ops) : Linked (u.runFrom ops) := by
  induction ops generalizing u with
  | nil => exact h
  | cons op ops ih => exact ih (apply_linked h op hops.1) hops.2

/-- Nothing dangles after a run that refers to types only. -/
theorem run_linked (config : Config) {ops : List (Operation σ)}
    (hops : (new config).RefersToTypes ops) : Linked (run config ops) :=
  runFrom_linked (linked_of_empty rfl rfl rfl rfl) hops

/-! ## What the ids lead to -/

/-- Every id in a table or an index leads to an entry of its kind. -/
structure NoDangling (u : CompilationUnit) : Prop where
  descriptors : ∀ id d, u.types.get? id = some d → ∀ t ∈ d.ids, u.types.Has t
  globals : ∀ id v, u.definitions.get? id = some (.variable v) → u.types.Has v.type
  results : ∀ id f, u.definitions.get? id = some (.function f) →
    ∀ t, f.result = some t → u.types.Has t
  params : ∀ id f, u.definitions.get? id = some (.function f) →
    ∀ p ∈ f.params, u.types.Has p.type
  localVariables : ∀ id v, u.locals.get? id = some (.variable v) → u.types.Has v.type
  rootScopes : ∀ id f, u.definitions.get? id = some (.function f) →
    ∀ x, f.rootScope = some x → u.locals.IsScope x
  scopesByStamp : ∀ stamp block x, u.locals.scopeByStamp? stamp block = some x → u.locals.IsScope x
  scopesBySymbol : ∀ symbol block x, u.locals.scopeBySymbol? symbol block = some x →
    u.locals.IsScope x
  spans : ∀ x spans, u.lifetimes.spans[x]? = some spans → u.locals.IsScope x
  localsByStamp : ∀ stamp x, u.locals.idByStamp? stamp = some x → u.locals.IsVariable x
  localsBySymbol : ∀ symbol x, u.locals.idBySymbol? symbol = some x → u.locals.IsVariable x
  storages : ∀ x storage, u.lifetimes.storage? x = some storage → u.locals.IsVariable x
  children : ∀ id children, u.locals.get? id = some (.scope children) →
    ∀ child ∈ children, ∃ e, u.locals.get? child = some e
  definitionsByStamp : ∀ stamp id, u.definitions.idByStamp? stamp = some id →
    ∃ d, u.definitions.get? id = some d
  definitionsBySymbol : ∀ symbol id, u.definitions.idBySymbol? symbol = some id →
    ∃ d, u.definitions.get? id = some d
  functionsByName : ∀ name id, u.definitions.idByName? name = some id →
    ∃ f, u.definitions.get? id = some (.function f)

/-- The ids of a linked unit lead where they should. -/
theorem Linked.noDangling {u : CompilationUnit} (h : Linked u) : NoDangling u where
  descriptors _ _ hd := h.types.has_of_mem_ids hd
  globals id v hv := (h.definitions id _ hv).types v.type List.mem_cons_self
  results id f hf t ht := by
    refine (h.definitions id _ hf).types t (List.mem_append_left _ ?_)
    simp [ht]
  params id f hf p hp :=
    (h.definitions id _ hf).types p.type (List.mem_append_right _ (List.mem_map_of_mem hp))
  localVariables := h.locals.typed
  rootScopes id f hf := (h.definitions id _ hf).rootScope
  scopesByStamp := h.locals.scopesByStamp
  scopesBySymbol := h.locals.scopesBySymbol
  spans := h.spans
  localsByStamp := h.locals.variablesByStamp
  localsBySymbol := h.locals.variablesBySymbol
  storages := h.storages
  children := h.locals.children
  definitionsByStamp := h.grounded.byStamp
  definitionsBySymbol := h.grounded.bySymbol
  functionsByName := h.grounded.byName

/-- After any run in which ids that are given as those of types are ids of types at that moment, no
id dangles. -/
theorem run_noDangling (config : Config) (ops : List (Operation σ))
    (hops : (new config).RefersToTypes ops) : NoDangling (run config ops) :=
  (run_linked config hops).noDangling

/-- A local variable mentions a typedef name before the target of the name is known.  The id that the
symbol of the variable leads to is that of a variable, and its type is there. -/
theorem run_noDangling_forward :
    let name : TypeExpr Attr := .base [] (.alias ⟨7⟩ ⟨1⟩)
    let body : FunctionDecl :=
      { name := ⟨8⟩, stamp := ⟨2⟩, storage := .external, result := .base [] .void, params := [],
        variadic := false, loc := ⟨⟨1⟩, 3, 1⟩ }
    let var : LocalDecl :=
      { name := ⟨9⟩, stamp := ⟨3⟩, storage := .auto, type := .pointer [] name, loc := ⟨⟨1⟩, 4, 1⟩ }
    let ops : List (Operation Unit) :=
      [.declare (.function body), .enterFunction ⟨2⟩ ⟨0⟩, .declareLocal var, .attach ⟨2⟩ ⟨3⟩ ⟨0⟩,
        .internType (.base [] (.integer .int)), .updateType ⟨2⟩ (.target ⟨5⟩), .bindLocal ⟨3⟩ ⟨4⟩]
    (new {}).RefersToTypes ops ∧ ∃ v, (run {} ops).locals.get? ⟨4⟩ = some (.variable v) ∧
      (run {} ops).types.Has v.type := by
  intro name body var ops
  have hops : (new {}).RefersToTypes ops := by
    decide +kernel
  have hsymbol : (run {} ops).locals.idBySymbol? ⟨4⟩ = some ⟨4⟩ := by
    decide +kernel
  have hlinks := run_noDangling {} ops hops
  obtain ⟨v, hv⟩ := hlinks.localsBySymbol ⟨4⟩ ⟨4⟩ hsymbol
  exact ⟨hops, v, hv, hlinks.localVariables ⟨4⟩ v hv⟩

end DebugInfo.CompilationUnit
