import DebugInfo.Proofs.History.Writes

/-!
# What a function says about its history

Declarations, bindings and blocks reach a function through several stamps, a name and a symbol, and
every definition puts the function together again.  Still each part of it is what was written last:
the signature that of the last definition, or of the prototype by which the function came in if it
has not been defined, and the symbol, the code and the outermost scope whatever was bound last,
before the definition or after it.  Only the symbols of parameters are lost when the parameters are
replaced.
-/

namespace DebugInfo

/-! ## Parameters -/

/-- Only the first element that is meant is changed. -/
theorem getElem?_updateFirst {α : Type} (p : α → Bool) (f : α → α) (as : List α) (i : Nat) :
    (updateFirst p f as)[i]? = if as.findIdx? p = some i then as[i]?.map f else as[i]? := by
  induction as generalizing i with
  | nil => simp [updateFirst]
  | cons a as ih =>
    rw [updateFirst, List.findIdx?_cons]
    cases hp : p a with
    | true => cases i <;> simp
    | false => cases i <;> simp [ih]

/-- What holds of elements in pairs still holds if a change keeps it. -/
theorem forall₂_updateFirst {α β : Type} {R : α → β → Prop} {p : α → Bool} {f : α → α}
    (hf : ∀ a b, R a b → R (f a) b) {as : List α} {bs : List β} (h : List.Forall₂ R as bs) :
    List.Forall₂ R (updateFirst p f as) bs := by
  induction h with
  | nil => exact .nil
  | cons hab h ih =>
    unfold updateFirst
    split
    · exact .cons (hf _ _ hab) h
    · exact .cons hab ih

/-! ## Declarations -/

def Parameter.bound (s : Symbol) (p : Parameter) : Parameter := { p with symbol := some s }

/-- What a prototype or a definition says about a function, besides its parameters. -/
structure Heading where
  name : Name
  loc : SourceLoc
  storage : StorageClass
  result : TypeExpr Attr
  isVariadic : Bool

def FunctionDecl.heading (d : FunctionDecl) : Heading where
  name := d.name
  loc := d.loc
  storage := d.storage
  result := d.result
  isVariadic := d.variadic

def PrototypeDecl.heading (d : PrototypeDecl) : Heading where
  name := d.name
  loc := d.loc
  storage := d.storage
  result := (CompilationUnit.prototypeResult d.type).1
  isVariadic := (CompilationUnit.prototypeResult d.type).2

/-- The function has this heading and these parameters, with the types that are found in the
table. -/
structure Function.IsDeclared (f : Function) (types : TypeTable) (h : Heading)
    (params : List ParameterDecl) : Prop where
  name : f.name = h.name
  loc : f.loc = h.loc
  isExternal : f.isExternal = h.storage.isExternal
  result : types.ResultIs h.result f.result
  isVariadic : f.isVariadic = h.isVariadic
  params : types.ParamsAre f.params params

namespace Write

def prototype? : Write → Option PrototypeDecl
  | .prototype d _ => some d
  | _ => none

def definition? : Write → Option FunctionDecl
  | .definition d _ _ => some d
  | _ => none

def code? : Write → Option CodeRange
  | .code range => some range
  | _ => none

def rootScope? : Write → Option EntryId
  | .rootScope x => some x
  | _ => none

/-- The symbol that is bound to the parameter of that number, where parameters have these stamps and
the first one of a stamp is meant. -/
def parameterSymbol? (stamps : List Stamp) (i : Nat) : Write → Option Symbol
  | .parameter stamp s => if stamps.findIdx? (· == stamp) = some i then some s else none
  | _ => none

/-- The writes since the last definition of the function. -/
def sinceDefinition (ws : List Write) : List Write := ws.rtakeWhile (·.definition?.isNone)

end Write

/-! ## Histories -/

/-- The function is what was written last. -/
structure Function.Records (f : Function) (types : TypeTable) (ws : List Write) : Prop where
  hasBody : f.hasBody = ws.any (·.definition?.isSome)
  defined : ∀ d, lastSome? Write.definition? ws = some d → f.IsDeclared types d.heading d.params
  /-- Without a definition the function is what its first write, a prototype, has made it. -/
  declared : lastSome? Write.definition? ws = none →
    ∃ d, ws.head?.bind Write.prototype? = some d ∧ f.IsDeclared types d.heading []
  symbol : f.symbol = lastSome? Write.symbol? ws
  code : f.code = lastSome? Write.code? ws
  rootScope : f.rootScope = lastSome? Write.rootScope? ws
  parameter : ∀ i p, f.params[i]? = some p →
    p.symbol = lastSome? (Write.parameterSymbol? (f.params.map (·.stamp)) i)
      (Write.sinceDefinition ws)

namespace Write

variable {types : TypeTable} {ws : List Write} {f : Function} {w : Write}

/-! ### What a write changes -/

/-- A function has the last symbol that was bound to it. -/
theorem symbol_changeFunction (w : Write) (f : Function) :
    (w.changeFunction f).symbol = w.symbol?.or f.symbol := by
  cases w <;> rfl

/-- A function has the last code that was bound to it. -/
theorem code_changeFunction (w : Write) (f : Function) :
    (w.changeFunction f).code = w.code?.or f.code := by
  cases w <;> rfl

/-- A function has the last root scope that was set. -/
theorem rootScope_changeFunction (w : Write) (f : Function) :
    (w.changeFunction f).rootScope = w.rootScope?.or f.rootScope := by
  cases w <;> rfl

/-- A function has a body once it was defined. -/
theorem hasBody_changeFunction (w : Write) (f : Function) :
    (w.changeFunction f).hasBody = (f.hasBody || w.definition?.isSome) := by
  cases w <;> simp [changeFunction, definition?, Definitions.redefined, Signature.defined]

theorem params_changeFunction (stamp : Stamp) (s : Symbol) (f : Function) :
    (changeFunction (.parameter stamp s) f).params =
      updateFirst (·.stamp == stamp) (·.bound s) f.params := rfl

/-- Only a definition changes the heading or the parameters. -/
theorem isDeclared_changeFunction (hw : w.definition? = none) {h : Heading}
    {params : List ParameterDecl} (hf : f.IsDeclared types h params) :
    (w.changeFunction f).IsDeclared types h params := by
  cases w with
  | definition => cases hw
  | parameter stamp s =>
    refine { hf with params := ?_ }
    rw [params_changeFunction]
    exact forall₂_updateFirst (f := Parameter.bound s) (fun _ _ hpd => hpd) hf.params
  | _ => exact { hf with }

/-- A definition replaces what was declared before. -/
theorem isDeclared_redefined {d : FunctionDecl} {result : Option EntryId}
    {params : List Parameter} (h : (Write.definition d result params).Resolved types)
    (f : Function) :
    (changeFunction (.definition d result params) f).IsDeclared types d.heading d.params where
  name := rfl
  loc := rfl
  isExternal := rfl
  result := h.1
  isVariadic := rfl
  params := h.2.1

theorem sinceDefinition_concat (hw : w.definition? = none) (ws : List Write) :
    sinceDefinition (ws ++ [w]) = sinceDefinition ws ++ [w] :=
  List.rtakeWhile_concat_pos _ ws w (by rw [hw]; rfl)

/-- A definition brings parameters without symbols, and other writes leave the stamps alone. -/
theorem parameter_changeFunction (hw : w.Resolved types)
    (hf : ∀ i p, f.params[i]? = some p →
      p.symbol = lastSome? (parameterSymbol? (f.params.map (·.stamp)) i) (sinceDefinition ws))
    (i : Nat) (p : Parameter) (hp : (w.changeFunction f).params[i]? = some p) :
    p.symbol = lastSome? (parameterSymbol? ((w.changeFunction f).params.map (·.stamp)) i)
      (sinceDefinition (ws ++ [w])) := by
  cases w with
  | definition d result params =>
    have hsince : sinceDefinition (ws ++ [.definition d result params]) = [] :=
      List.rtakeWhile_concat_neg _ ws _ Bool.false_ne_true
    rw [hsince, lastSome?_nil]
    exact hw.2.2 p (List.mem_of_getElem? hp)
  | parameter stamp s =>
    have hstamps : (updateFirst (·.stamp == stamp) (·.bound s) f.params).map (·.stamp) =
        f.params.map (·.stamp) :=
      map_updateFirst (f := Parameter.bound s) (fun _ => rfl) f.params
    rw [params_changeFunction, getElem?_updateFirst] at hp
    rw [params_changeFunction, hstamps, sinceDefinition_concat rfl, lastSome?_concat,
      parameterSymbol?, List.findIdx?_map]
    split at hp
    · next hfirst =>
      obtain ⟨old, -, rfl⟩ := Option.map_eq_some_iff.1 hp
      rw [Function.comp_def, if_pos hfirst]
      rfl
    · next hother =>
      rw [Function.comp_def, if_neg hother, Option.none_or]
      exact hf i p hp
  | _ =>
    rw [sinceDefinition_concat rfl, lastSome?_concat]
    exact hf i p hp

/-! ### What all writes come to -/

/-- What is created says what its first write says. -/
theorem records_create {d : Definition} (hw : w.Resolved types) (hd : w.creation? = some d)
    (hf : d = .function f) : f.Records types [w] := by
  subst hf
  cases w with
  | prototype d result =>
    cases hd
    constructor
    · rfl
    · exact fun _ h => nomatch h
    · exact fun _ => ⟨d, rfl, rfl, rfl, rfl, hw, rfl, .nil⟩
    · rfl
    · rfl
    · rfl
    · exact fun _ _ h => nomatch h
  | definition d result params =>
    cases hd
    constructor
    · rfl
    · intro d' hd'
      cases hd'
      exact ⟨rfl, rfl, rfl, hw.1, rfl, hw.2.1⟩
    · exact fun h => nomatch h
    · rfl
    · rfl
    · rfl
    · exact fun _ p hp => hw.2.2 p (List.mem_of_getElem? hp)
  | _ => cases hd

/-- What is changed by one more write says what all the writes say. -/
theorem records_change (hw : w.Resolved types) (hf : f.Records types ws) :
    (w.changeFunction f).Records types (ws ++ [w]) where
  hasBody := by
    rw [hasBody_changeFunction, hf.hasBody]
    simp
  defined d hd := by
    rw [lastSome?_concat] at hd
    cases hdef : w.definition? with
    | none =>
      rw [hdef, Option.none_or] at hd
      exact isDeclared_changeFunction hdef (hf.defined d hd)
    | some d' =>
      rw [hdef, Option.some_or, Option.some.injEq] at hd
      subst hd
      cases w <;> cases hdef
      exact isDeclared_redefined hw f
  declared hnone := by
    rw [lastSome?_concat, Option.or_eq_none_iff] at hnone
    obtain ⟨d, hd, hdeclared⟩ := hf.declared hnone.2
    refine ⟨d, ?_, isDeclared_changeFunction hnone.1 hdeclared⟩
    obtain ⟨w', hw', hd⟩ := Option.bind_eq_some_iff.1 hd
    rw [List.head?_append, hw', Option.some_or, Option.bind_some, hd]
  symbol := by rw [symbol_changeFunction, hf.symbol, lastSome?_concat]
  code := by rw [code_changeFunction, hf.code, lastSome?_concat]
  rootScope := by rw [rootScope_changeFunction, hf.rootScope, lastSome?_concat]
  parameter := parameter_changeFunction hw hf.parameter

/-- A function says what was written to it. -/
theorem Written.records {d? : Option Definition} (h : Written ws d?)
    (hws : ∀ w ∈ ws, w.Resolved types) (hf : d? = some (.function f)) : f.Records types ws := by
  induction h generalizing f with
  | nil => cases hf
  | create hd => exact records_create (hws _ List.mem_cons_self) hd (Option.some.inj hf)
  | @change ws d h w ih =>
    have hw := hws w (List.mem_append_right ws List.mem_cons_self)
    obtain v | old := d
    · cases hf
    · cases hf
      exact records_change hw (ih (fun w' hw' => hws w' (List.mem_append_left _ hw')) rfl)

end Write

namespace CompilationUnit

/-- After any run, each function is what was written into it last since the unit was restarted, in
whatever way the writes have reached it. -/
theorem run_function_records {σ : Type} (config : Config) (ops : List (Operation σ)) {id : EntryId}
    {f : Function} (h : (run config ops).definitions.get? id = some (.function f)) :
    f.Records (run config ops).types (writes id (occurrences config ops)) :=
  (run_written config ops id).records (run_resolved config ops id) h

/-- A call declares the function, its body is entered under another stamp, and the body comes once
more with another stamp for its parameter. -/
theorem run_function_records_redefined :
    let int : TypeExpr Attr := .base [] (.integer .int)
    let call : PrototypeDecl :=
      { name := ⟨7⟩, stamp := ⟨1⟩, storage := .external, type := .function [] int [] true,
        loc := ⟨⟨1⟩, 3, 1⟩ }
    let body (param : Stamp) : FunctionDecl :=
      { name := ⟨7⟩, stamp := ⟨2⟩, storage := .static, result := .base [] .void,
        params := [⟨⟨8⟩, param, int⟩], variadic := false, loc := ⟨⟨1⟩, 9, 1⟩ }
    let ops : List (Operation Unit) :=
      [.declare (.prototype call), .bindSymbol ⟨1⟩ ⟨4⟩, .declare (.function (body ⟨3⟩)),
        .bindParameter ⟨1⟩ ⟨3⟩ ⟨6⟩, .enterFunction ⟨2⟩ ⟨0⟩, .bindCode ⟨4⟩ ⟨⟨16⟩, ⟨32⟩⟩,
        .declare (.function (body ⟨5⟩)), .declare (.prototype call)]
    let f : Function :=
      { name := ⟨7⟩, symbol := some ⟨4⟩, loc := ⟨⟨1⟩, 9, 1⟩, isExternal := false, result := none,
        isVariadic := false, params := [{ name := ⟨8⟩, stamp := ⟨5⟩, type := ⟨0⟩ }],
        code := some ⟨⟨16⟩, ⟨32⟩⟩, rootScope := some ⟨2⟩, hasBody := true }
    (run {} ops).definitions.get? ⟨1⟩ = some (.function f) ∧
      f.Records (run {} ops).types (writes ⟨1⟩ (occurrences {} ops)) := by
  intro int call body ops f
  have h : (run {} ops).definitions.get? ⟨1⟩ = some (.function f) := by decide +kernel
  exact ⟨h, run_function_records {} ops h⟩

end CompilationUnit

end DebugInfo
