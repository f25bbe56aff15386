import DebugInfo.Definitions
import DebugInfo.Locals
import DebugInfo.TypeTable.Update

/-!
# What becomes of an entry

Entries are completed while a unit is processed.  A type gets its definition after it was mentioned,
a function is declared again and defined, and symbols and addresses are bound.  For each kind of
entry, `Evolves` says what it may become: what was said of it is not taken back, and most of it does
not change at all.
-/

namespace DebugInfo

/-- What is set stays set, to the same thing or to another one. -/
def StaysSet {α : Type} (a b : Option α) : Prop := a.isSome → b.isSome

/-- What is set stays as it is. -/
def StaysAt {α : Type} (a b : Option α) : Prop := ∀ x, a = some x → b = some x

section Options

variable {α : Type} {a b c : Option α}

theorem StaysSet.refl (a : Option α) : StaysSet a a := id

theorem StaysSet.trans (h : StaysSet a b) (h' : StaysSet b c) : StaysSet a c :=
  fun hset => h' (h hset)

theorem staysSet_some (a : Option α) (x : α) : StaysSet a (some x) := fun _ => rfl

theorem StaysAt.refl (a : Option α) : StaysAt a a := fun _ h => h

theorem StaysAt.trans (h : StaysAt a b) (h' : StaysAt b c) : StaysAt a c :=
  fun x hx => h' x (h x hx)

/-- What is there stays if something is only set where nothing is. -/
theorem staysAt_or (a b : Option α) : StaysAt a (a.or b) := by
  rintro x rfl
  rfl

end Options

/-! ## Types -/

structure Composite.Evolves (c c' : Composite) : Prop where
  kind : c'.kind = c.kind
  tag : c'.tag = c.tag
  loc : StaysAt c.loc c'.loc
  byteSize : StaysSet c.byteSize c'.byteSize
  isDefined : c.isDefined = true → c'.isDefined = true

structure Enumeration.Evolves (e e' : Enumeration) : Prop where
  tag : e'.tag = e.tag
  loc : StaysAt e.loc e'.loc
  byteSize : StaysSet e.byteSize e'.byteSize

structure Alias.Evolves (a a' : Alias) : Prop where
  name : a'.name = a.name
  loc : StaysAt a.loc a'.loc
  target : StaysSet a.target a'.target

/-- A descriptor that refers to the types it is made of never changes. -/
inductive Descriptor.Evolves : Descriptor → Descriptor → Prop where
  | composite {c c' : Composite} (h : c.Evolves c') : Evolves (.composite c) (.composite c')
  | enumeration {e e' : Enumeration} (h : e.Evolves e') : Evolves (.enumeration e) (.enumeration e')
  | alias {a a' : Alias} (h : a.Evolves a') : Evolves (.alias a) (.alias a')
  | refl (d : Descriptor) : Evolves d d

theorem Composite.Evolves.trans {c₁ c₂ c₃ : Composite} (h : c₁.Evolves c₂) (h' : c₂.Evolves c₃) :
    c₁.Evolves c₃ where
  kind := h'.kind.trans h.kind
  tag := h'.tag.trans h.tag
  loc := h.loc.trans h'.loc
  byteSize := h.byteSize.trans h'.byteSize
  isDefined hc := h'.isDefined (h.isDefined hc)

theorem Enumeration.Evolves.trans {e₁ e₂ e₃ : Enumeration} (h : e₁.Evolves e₂)
    (h' : e₂.Evolves e₃) : e₁.Evolves e₃ :=
  ⟨h'.tag.trans h.tag, h.loc.trans h'.loc, h.byteSize.trans h'.byteSize⟩

theorem Alias.Evolves.trans {a₁ a₂ a₃ : Alias} (h : a₁.Evolves a₂) (h' : a₂.Evolves a₃) :
    a₁.Evolves a₃ :=
  ⟨h'.name.trans h.name, h.loc.trans h'.loc, h.target.trans h'.target⟩

theorem Descriptor.Evolves.trans {d₁ d₂ d₃ : Descriptor} (h : d₁.Evolves d₂) (h' : d₂.Evolves d₃) :
    d₁.Evolves d₃ := by
  obtain h | h | h | _ := h
  · obtain h' | _ | _ | _ := h'
    · exact .composite (h.trans h')
    · exact .composite h
  · obtain _ | h' | _ | _ := h'
    · exact .enumeration (h.trans h')
    · exact .enumeration h
  · obtain _ | _ | h' | _ := h'
    · exact .alias (h.trans h')
    · exact .alias h
  · exact h'

/-- An update of whatever kind leads to what a descriptor may become. -/
theorem TypeUpdate.evolves_result? {u : TypeUpdate} {d d' : Descriptor}
    (h : u.result? d = some d') : d.Evolves d' := by
  cases u <;> cases d <;> simp only [result?, Option.some.injEq, reduceCtorEq] at h <;> subst h
  case compositeSize.composite n c => exact .composite ⟨rfl, rfl, .refl _, staysSet_some _ n, id⟩
  case members.composite => exact .composite ⟨rfl, rfl, .refl _, .refl _, fun _ => rfl⟩
  case memberOffset.composite => exact .composite ⟨rfl, rfl, .refl _, .refl _, id⟩
  case memberLayout.composite => exact .composite ⟨rfl, rfl, .refl _, .refl _, id⟩
  case enumerators.enumeration => exact .enumeration ⟨rfl, .refl _, .refl _⟩
  case enumSize.enumeration n e => exact .enumeration ⟨rfl, .refl _, staysSet_some _ n⟩
  case target.alias id a => exact .alias ⟨rfl, .refl _, staysSet_some _ id⟩
  case loc.composite l c => exact .composite ⟨rfl, rfl, staysAt_or _ _, .refl _, id⟩
  case loc.enumeration l e => exact .enumeration ⟨rfl, staysAt_or _ _, .refl _⟩
  case loc.alias l a => exact .alias ⟨rfl, staysAt_or _ _, .refl _⟩

/-! ## Definitions -/

structure Variable.Evolves (v v' : Variable) : Prop where
  name : v'.name = v.name
  loc : v'.loc = v.loc
  type : v'.type = v.type
  isExternal : v'.isExternal = v.isExternal
  isTentative : v.isTentative = false → v'.isTentative = false
  symbol : StaysSet v.symbol v'.symbol

/-- The name, the location and the signature of a function are those of its last definition. -/
structure Function.Evolves (f f' : Function) : Prop where
  hasBody : f.hasBody = true → f'.hasBody = true
  symbol : StaysSet f.symbol f'.symbol
  code : StaysSet f.code f'.code
  rootScope : StaysSet f.rootScope f'.rootScope

/-- A variable stays a variable, and a function a function. -/
inductive Definition.Evolves : Definition → Definition → Prop where
  | variable {v v' : Variable} (h : v.Evolves v') : Evolves (.variable v) (.variable v')
  | function {f f' : Function} (h : f.Evolves f') : Evolves (.function f) (.function f')

theorem Variable.Evolves.trans {v₁ v₂ v₃ : Variable} (h : v₁.Evolves v₂) (h' : v₂.Evolves v₃) :
    v₁.Evolves v₃ where
  name := h'.name.trans h.name
  loc := h'.loc.trans h.loc
  type := h'.type.trans h.type
  isExternal := h'.isExternal.trans h.isExternal
  isTentative hv := h'.isTentative (h.isTentative hv)
  symbol := h.symbol.trans h'.symbol

theorem Function.Evolves.trans {f₁ f₂ f₃ : Function} (h : f₁.Evolves f₂) (h' : f₂.Evolves f₃) :
    f₁.Evolves f₃ where
  hasBody hf := h'.hasBody (h.hasBody hf)
  symbol := h.symbol.trans h'.symbol
  code := h.code.trans h'.code
  rootScope := h.rootScope.trans h'.rootScope

namespace Definition.Evolves

theorem refl (d : Definition) : d.Evolves d := by
  obtain v | f := d
  · exact .variable ⟨rfl, rfl, rfl, rfl, id, .refl _⟩
  · exact .function ⟨id, .refl _, .refl _, .refl _⟩

theorem trans {d₁ d₂ d₃ : Definition} (h : d₁.Evolves d₂) (h' : d₂.Evolves d₃) :
    d₁.Evolves d₃ := by
  obtain h | h := h
  · obtain h' | _ := h'
    exact .variable (h.trans h')
  · obtain _ | h' := h'
    exact .function (h.trans h')

/-- A symbol may be written into a definition. -/
theorem withSymbol (symbol : Symbol) (d : Definition) : d.Evolves (d.withSymbol symbol) := by
  obtain v | f := d
  · exact .variable ⟨rfl, rfl, rfl, rfl, id, staysSet_some _ symbol⟩
  · exact .function ⟨id, staysSet_some _ symbol, .refl _, .refl _⟩

/-- A further declaration can only end that a variable is tentative. -/
theorem redeclared (v : Variable) (defining : Bool) : (Definition.variable v).Evolves
    (.variable { v with isTentative := v.isTentative && !defining }) := by
  have htentative (hv : v.isTentative = false) : (v.isTentative && !defining) = false := by
    rw [hv, Bool.false_and]
  exact .variable ⟨rfl, rfl, rfl, rfl, htentative, .refl _⟩

end Definition.Evolves

/-! ## Locals -/

inductive Local.Evolves : Local → Local → Prop where
  /-- Only the symbol of a variable can change. -/
  | variable (v : LocalVariable) (symbol : Option Symbol) :
      Evolves (.variable v) (.variable { v with symbol })
  /-- The children that were there come first. -/
  | scope {children children' : List EntryId} (h : children <+: children') :
      Evolves (.scope children) (.scope children')

namespace Local.Evolves

theorem refl (e : Local) : e.Evolves e := by
  obtain v | children := e
  · exact .variable v v.symbol
  · exact .scope List.prefix_rfl

theorem trans {e₁ e₂ e₃ : Local} (h : e₁.Evolves e₂) (h' : e₂.Evolves e₃) : e₁.Evolves e₃ := by
  obtain ⟨v, _⟩ | h := h
  · obtain ⟨_, symbol⟩ | _ := h'
    exact .variable v symbol
  · obtain _ | h' := h'
    exact .scope (h.trans h')

/-- A scope may get one more child. -/
theorem addChild (children : List EntryId) (child : EntryId) :
    (Local.scope children).Evolves (.scope (children ++ [child])) :=
  .scope (List.prefix_append children [child])

end Local.Evolves

end DebugInfo
