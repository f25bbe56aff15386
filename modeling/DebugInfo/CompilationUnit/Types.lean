import DebugInfo.CompilationUnit.Basic

/-!
# Types of a unit

Interning and updating types, and the declarations that define a type: a struct, union, enum or
typedef gets its entry when it is first mentioned, and its definition is written into that entry.
-/

namespace DebugInfo

namespace CompilationUnit

def internType (t : TypeExpr Attr) : StateM CompilationUnit EntryId := fun u =>
  let (id, ids, types) := TypeTable.intern t (u.ids, u.types)
  (id, { u with ids, types })

/-- Update a type.  The file of a location is noted even if the location is not kept. -/
def updateType (id : EntryId) (update : TypeUpdate) : UnitM Bool := do
  if let .loc l := update then addFile l.file
  fun u =>
    match u.types.update id update with
    | .ok (changed, types) => (.ok changed, { u with types })
    | .error e => (.error e, u)

/-- The members of a composite, after interning their types in order. -/
def internMembers : List MemberDecl → StateM CompilationUnit (List Member)
  | [] => pure []
  | d :: ds => do
      let type ← internType d.type
      let rest ← internMembers ds
      return { name := d.name, type, bitSize := d.width } :: rest

def defineComposite (d : CompositeDecl) : UnitM EntryId := do
  let id ← internType (.base [] (.composite d.kind d.tag d.stamp))
  let _ ← updateType id (.loc d.loc)
  if let some decls := d.members then
    let members ← internMembers decls
    let _ ← updateType id (.members members)
  if let some bytes := d.byteSize then
    let _ ← updateType id (.compositeSize bytes)
  return id

def defineEnum (d : EnumDecl) : UnitM EntryId := do
  let id ← internType (.base [] (.enumeration d.tag d.stamp))
  let _ ← updateType id (.loc d.loc)
  let _ ← updateType id (.enumerators d.enumerators)
  if let some bytes := d.byteSize then
    let _ ← updateType id (.enumSize bytes)
  return id

def defineTypedef (d : TypedefDecl) : UnitM EntryId := do
  let id ← internType (.base [] (.alias d.name d.stamp))
  let target ← internType d.type
  let _ ← updateType id (.loc d.loc)
  let _ ← updateType id (.target target)
  return id

end CompilationUnit

end DebugInfo
