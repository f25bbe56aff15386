import DebugInfo.Ident

/-!
# Type expressions

A type as it is written in a declaration.  Every layer of a type expression carries its own list of
attributes, outermost first, so that a qualifier can stand at any depth.  The attributes are a
parameter: an expression as written carries `Attr`s, and one that is reduced to what makes up its
type carries `Qualifier`s only.
-/

namespace DebugInfo

/-! ## Attributes -/

inductive Qualifier where
  | const
  | volatile
deriving DecidableEq, Repr

def Qualifier.keyword : Qualifier → String
  | .const => "const"
  | .volatile => "volatile"

inductive Attr where
  | qualifier (q : Qualifier)
  | restrict
  | aligned (bytes : Nat)
  /-- Any vendor attribute. -/
  | custom (name : Name)
deriving DecidableEq, Repr

namespace Attr

def qualifier? : Attr → Option Qualifier
  | .qualifier q => some q
  | _ => none

def isQualifier (a : Attr) : Bool := a.qualifier?.isSome

end Attr

/-! ## Base types -/

inductive IntegerKind where
  | bool | char | signedChar | unsignedChar | short | unsignedShort | int | unsignedInt
  | long | unsignedLong | longLong | unsignedLongLong
deriving DecidableEq, Repr

def IntegerKind.spelling : IntegerKind → String
  | .bool => "_Bool"
  | .char => "char"
  | .signedChar => "signed char"
  | .unsignedChar => "unsigned char"
  | .short => "short"
  | .unsignedShort => "unsigned short"
  | .int => "int"
  | .unsignedInt => "unsigned int"
  | .long => "long"
  | .unsignedLong => "unsigned long"
  | .longLong => "long long"
  | .unsignedLongLong => "unsigned long long"

inductive FloatingKind where
  | float | double | longDouble
deriving DecidableEq, Repr

def FloatingKind.spelling : FloatingKind → String
  | .float => "float"
  | .double => "double"
  | .longDouble => "long double"

inductive CompositeKind where
  | struct | union
deriving DecidableEq, Repr

def CompositeKind.keyword : CompositeKind → String
  | .struct => "struct"
  | .union => "union"

/-- Types that are not made of other types.  A typedef name or a tag comes with the stamp of the
declaration it refers to. -/
inductive BaseType where
  | void
  | integer (kind : IntegerKind)
  | floating (kind : FloatingKind)
  | alias (name : Name) (stamp : Stamp)
  | composite (kind : CompositeKind) (tag : Name) (stamp : Stamp)
  | enumeration (tag : Name) (stamp : Stamp)
deriving DecidableEq, Repr

/-! ## Expressions -/

inductive TypeExpr (α : Type) where
  | base (attrs : List α) (type : BaseType)
  | pointer (attrs : List α) (target : TypeExpr α)
  | array (attrs : List α) (element : TypeExpr α) (length : Option Nat)
  | function (attrs : List α) (result : TypeExpr α) (params : List (Name × TypeExpr α))
      (variadic : Bool)
  /-- A function whose parameters are not declared. -/
  | unprototyped (attrs : List α) (result : TypeExpr α) (variadic : Bool)

namespace TypeExpr

variable {α β : Type}

/-- Induction in which the parameters of a function are reached through membership. -/
@[induction_eliminator]
theorem induct {motive : TypeExpr α → Prop}
    (base : ∀ attrs type, motive (.base attrs type))
    (pointer : ∀ attrs target, motive target → motive (.pointer attrs target))
    (array : ∀ attrs element length, motive element → motive (.array attrs element length))
    (function : ∀ attrs result params variadic, motive result → (∀ p ∈ params, motive p.2) →
      motive (.function attrs result params variadic))
    (unprototyped : ∀ attrs result variadic, motive result →
      motive (.unprototyped attrs result variadic))
    (t : TypeExpr α) : motive t :=
  @TypeExpr.rec α motive (fun ps => ∀ p ∈ ps, motive p.2) (fun p => motive p.2)
    base pointer array function unprototyped
    (fun _ h => absurd h List.not_mem_nil)
    (fun _ _ hp hps _ h => (List.mem_cons.1 h).elim (fun e => e ▸ hp) (hps _))
    (fun _ _ h => h) t

/-- The attributes of the outermost layer. -/
def attrs : TypeExpr α → List α
  | .base as _ | .pointer as _ | .array as _ _ | .function as _ _ _ | .unprototyped as _ _ => as

/-- The expression with other attributes on its outermost layer. -/
def withAttrs (as : List α) : TypeExpr α → TypeExpr α
  | .base _ b => .base as b
  | .pointer _ t => .pointer as t
  | .array _ t n => .array as t n
  | .function _ r ps v => .function as r ps v
  | .unprototyped _ r v => .unprototyped as r v

/-- One more attribute around the expression. -/
def addAttr (a : α) (t : TypeExpr α) : TypeExpr α := t.withAttrs (a :: t.attrs)

@[simp] theorem attrs_withAttrs (as : List α) (t : TypeExpr α) : (t.withAttrs as).attrs = as := by
  cases t <;> rfl

@[simp] theorem withAttrs_attrs (t : TypeExpr α) : t.withAttrs t.attrs = t := by
  cases t <;> rfl

@[simp] theorem withAttrs_withAttrs (as bs : List α) (t : TypeExpr α) :
    (t.withAttrs as).withAttrs bs = t.withAttrs bs := by
  cases t <;> rfl

@[simp] theorem attrs_addAttr (a : α) (t : TypeExpr α) : (t.addAttr a).attrs = a :: t.attrs :=
  attrs_withAttrs _ t

/-- Whether the outermost layer is `void`, whatever its attributes. -/
def isVoid : TypeExpr α → Bool
  | .base _ .void => true
  | _ => false

/-- Whether the expression is `void` without any attribute. -/
def isPlainVoid (t : TypeExpr α) : Bool := t.isVoid && t.attrs.isEmpty

/-- Whether the expression is an array without any attribute. -/
def isPlainArray : TypeExpr α → Bool
  | .array [] _ _ => true
  | _ => false

theorem isPlainVoid_iff (t : TypeExpr α) : t.isPlainVoid = true ↔ t = .base [] .void := by
  cases t with
  | base as b => cases b <;> simp [isPlainVoid, isVoid, attrs]
  | _ => simp [isPlainVoid, isVoid]

theorem isPlainArray_iff (t : TypeExpr α) :
    t.isPlainArray = true ↔ ∃ e n, t = .array [] e n := by
  cases t with
  | array as e n => cases as <;> simp [isPlainArray]
  | _ => simp [isPlainArray]

/-! ## Changing the attributes of every layer -/

mutual

def mapAttrs (f : List α → List β) : TypeExpr α → TypeExpr β
  | .base as b => .base (f as) b
  | .pointer as t => .pointer (f as) (t.mapAttrs f)
  | .array as t n => .array (f as) (t.mapAttrs f) n
  | .function as r ps v => .function (f as) (r.mapAttrs f) (mapParamAttrs f ps) v
  | .unprototyped as r v => .unprototyped (f as) (r.mapAttrs f) v

def mapParamAttrs (f : List α → List β) : List (Name × TypeExpr α) → List (Name × TypeExpr β)
  | [] => []
  | (n, t) :: ps => (n, t.mapAttrs f) :: mapParamAttrs f ps

end

theorem mapParamAttrs_eq_map (f : List α → List β) (ps : List (Name × TypeExpr α)) :
    mapParamAttrs f ps = ps.map fun p => (p.1, p.2.mapAttrs f) := by
  induction ps with
  | nil => rfl
  | cons p ps ih => simp [mapParamAttrs, ih]

end TypeExpr

/-! ## Canonical types -/

/-- What is left of a type expression once every attribute but `const` and `volatile` is gone. -/
abbrev CanonicalType := TypeExpr Qualifier

namespace TypeExpr

def canonical (t : TypeExpr Attr) : CanonicalType := t.mapAttrs (List.filterMap Attr.qualifier?)

end TypeExpr

end DebugInfo
