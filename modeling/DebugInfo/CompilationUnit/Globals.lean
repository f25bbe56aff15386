import DebugInfo.CompilationUnit.Types

/-!
# Globals of a unit

Declaring global variables and functions, and binding symbols and addresses to them.
-/

namespace DebugInfo

namespace CompilationUnit

/-! ## Declarations -/

def declareVariable (d : VariableDecl) : UnitM EntryId := do
  addFile d.loc.file
  let type ← internType d.type
  let isExtern := d.storage == .external
  let v : Variable :=
    { name := d.name
      loc := d.loc
      isTentative := isExtern && !d.hasInitializer
      isExternal := d.storage.isExternal
      type }
  onDefinitions fun g ids => g.declareVariable ids d.stamp v (d.hasInitializer || !isExtern)

/-- The type that a function returns; `void` without any attribute is none. -/
def resultType (t : TypeExpr Attr) : StateM CompilationUnit (Option EntryId) :=
  if t.isPlainVoid then pure none else some <$> internType t

/-- What the type of a prototype says about the function: its result, and whether it is
variadic. -/
def prototypeResult : TypeExpr Attr → TypeExpr Attr × Bool
  | .function _ r _ variadic => (r, variadic)
  | .unprototyped _ r variadic => (r, variadic)
  | t => (t, false)

def declarePrototype (d : PrototypeDecl) : UnitM EntryId := do
  addFile d.loc.file
  let (type, isVariadic) := prototypeResult d.type
  let result ← resultType type
  let s : Signature :=
    { name := d.name, stamp := d.stamp, storage := d.storage, loc := d.loc, result, isVariadic }
  onDefinitions fun g ids => g.declarePrototype ids s

/-- The parameters of a function, after interning their types in order. -/
def internParams : List ParameterDecl → StateM CompilationUnit (List Parameter)
  | [] => pure []
  | d :: ds => do
      let type ← internType d.type
      let rest ← internParams ds
      return { name := d.name, stamp := d.stamp, type } :: rest

def defineFunction (d : FunctionDecl) : UnitM EntryId := do
  addFile d.loc.file
  let result ← resultType d.result
  let params ← internParams d.params
  let s : Signature :=
    { name := d.name, stamp := d.stamp, storage := d.storage, loc := d.loc, result,
      isVariadic := d.variadic }
  onDefinitions fun g ids => g.defineFunction ids s params

/-- Record a declaration at file scope.  The answer is the id of the definition, or of the type
that is defined. -/
def declare : Declaration → UnitM EntryId
  | .variable d => declareVariable d
  | .function d => defineFunction d
  | .prototype d => declarePrototype d
  | .composite d => defineComposite d
  | .enum d => defineEnum d
  | .typedef d => defineTypedef d

def markPrinted (name : Name) : StateM CompilationUnit Unit :=
  modify fun u => { u with definitions := u.definitions.markPrinted name }

/-! ## Bindings -/

/-- Let the symbol lead to the scopes entered under each of the stamps. -/
def linkSymbolAll (stamps : List Stamp) (symbol : Symbol) (l : Locals) : Locals :=
  stamps.foldl (fun l stamp => (l.linkSymbol stamp symbol).2) l

/-- Bind a symbol to a global.  For a function, the symbol leads to its scopes as well, whatever
stamp they were entered under. -/
def bindSymbol (stamp : Stamp) (symbol : Symbol) :
    StateM CompilationUnit (Option EntryId) := fun u =>
  match u.definitions.bindSymbol stamp symbol with
  | none => (none, u)
  | some (id, definitions) =>
      let locals :=
        match definitions.get? id with
        | some (.function _) => linkSymbolAll (definitions.stamps id) symbol u.locals
        | _ => u.locals
      (some id, { u with definitions, locals })

def bindCode (symbol : Symbol) (code : CodeRange) : UnitM Bool :=
  changeDefinitions (·.bindCode symbol code)

def bindParameter (function param : Stamp) (symbol : Symbol) : UnitM Bool :=
  changeDefinitions (·.bindParameter function param symbol)

end CompilationUnit

end DebugInfo
