import DebugInfo.TypeExpr.Key
import DebugInfo.TypeTable.Descriptor

/-!
# The type table

Every type of a unit is stored once, under its key.  A type that is not there yet is added after
the types it is made of, so its id is larger than theirs.

A `const` or `volatile` is a descriptor of its own around what is left of the type without it; the
qualifiers of a layer come off from the outside.  An array of plain arrays is one descriptor with
several dimensions.
-/

namespace DebugInfo

structure TypeTable where
  mode : KeyMode
  descriptors : EntryMap Descriptor
  keys : Std.ExtTreeMap TypeKey EntryId

namespace TypeTable

def empty (mode : KeyMode) : TypeTable where
  mode
  descriptors := ∅
  keys := ∅

/-- Forget every type; the mode stays. -/
def clear (table : TypeTable) : TypeTable := { table with descriptors := ∅, keys := ∅ }

def get? (table : TypeTable) (id : EntryId) : Option Descriptor := table.descriptors[id]?

def size (table : TypeTable) : Nat := table.descriptors.size

def isEmpty (table : TypeTable) : Bool := table.descriptors.isEmpty

def toList (table : TypeTable) : List (EntryId × Descriptor) := table.descriptors.toList

/-- The id of a canonical type that is already in the table. -/
def find? (table : TypeTable) (t : CanonicalType) : Option EntryId :=
  table.keys[TypeKey.of table.mode t]?

/-- The id of a type that is already in the table. -/
def lookup (table : TypeTable) (t : TypeExpr Attr) : Option EntryId := table.find? t.canonical

@[simp] theorem mode_empty (mode : KeyMode) : (empty mode).mode = mode := rfl
@[simp] theorem clear_eq_empty (table : TypeTable) : table.clear = empty table.mode := rfl

/-! ## Interning -/

/-- A computation that may add types. -/
abbrev InternM := StateM (IdSupply × TypeTable)

/-- Add a descriptor under a fresh id, and the id under the key of `t`. -/
def add (t : CanonicalType) (d : Descriptor) : InternM EntryId := fun (ids, table) =>
  let (id, ids) := ids.fresh
  (id, ids, { table with
    descriptors := table.descriptors.insert id d
    keys := table.keys.insert (TypeKey.of table.mode t) id })

/-- The id of `t`; if it is not in the table, it is added with the descriptor that `make` gives. -/
def internAs (t : CanonicalType) (make : InternM Descriptor) : InternM EntryId := fun s =>
  match s.2.find? t with
  | some id => (id, s)
  | none => (make >>= add t) s

/-- The id of `t` with the qualifiers `qs` on its outermost layer, where `make` describes `t`
without any. -/
def internLayer (t : CanonicalType) (make : InternM Descriptor) :
    List Qualifier → InternM EntryId
  | [] => internAs (t.withAttrs []) make
  | q :: qs => internAs (t.withAttrs (q :: qs)) (.qualified q <$> internLayer t make qs)

mutual

/-- The descriptor of a type without the qualifiers of its outermost layer, after adding the types
it is made of. -/
def describe : CanonicalType → InternM Descriptor
  | .base _ b => pure (.ofBase b)
  | .pointer _ t => .pointer <$> internLayer t (describe t) t.attrs
  | .array _ t n =>
      if t.isPlainArray then
        .addDimension n <$> describe t
      else
        (.array · [n]) <$> internLayer t (describe t) t.attrs
  | .function _ r ps _ => do
      let result ← if r.isPlainVoid then pure none else some <$> internLayer r (describe r) r.attrs
      let params ← describeParams ps
      return .function result (some params)
  | .unprototyped _ r _ => do
      let result ← if r.isPlainVoid then pure none else some <$> internLayer r (describe r) r.attrs
      return .function result none

def describeParams : List (Name × CanonicalType) → InternM (List (Name × EntryId))
  | [] => pure []
  | (n, t) :: ps => do
      let id ← internLayer t (describe t) t.attrs
      let rest ← describeParams ps
      return (n, id) :: rest

end

def internCanonical (t : CanonicalType) : InternM EntryId := internLayer t (describe t) t.attrs

/-- The id of a type, which is added if the table does not have it. -/
def intern (t : TypeExpr Attr) : InternM EntryId := internCanonical t.canonical

end TypeTable

end DebugInfo
