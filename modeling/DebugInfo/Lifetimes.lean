import DebugInfo.Location

/-!
# Lifetimes

Where in the code a scope is open, and where a variable lives at which place.  The code generator
reports events; each one opens or ends a range of one scope or variable.  Histories are kept newest
first: an event concerns at most the newest range, and ends it only if it has no end yet.

Beside the histories, the tracker keeps what is open at the moment, so that the end of a function
can end every range that was left open.
-/

namespace DebugInfo

/-! ## Ranges -/

/-- A range of addresses, which has no end while it is open.  Whatever begins a range says where, so
the start is never missing. -/
structure Span where
  start : Address
  stop : Option Address := none
deriving DecidableEq, Repr

namespace Span

def isOpen (s : Span) : Bool := s.stop.isNone

/-- The range ended at `addr`, unless it has an end already. -/
def endAt (addr : Address) (s : Span) : Span := { s with stop := s.stop.or (some addr) }

@[simp] theorem isOpen_endAt (addr : Address) (s : Span) : (s.endAt addr).isOpen = false := by
  cases h : s.stop <;> simp [isOpen, endAt, h]

theorem endAt_of_not_isOpen {addr : Address} {s : Span} (h : s.isOpen = false) :
    s.endAt addr = s := by
  cases s with
  | mk start stop => cases stop <;> simp_all [isOpen, endAt]

end Span

/-- A range in which a variable lives at one place. -/
structure LiveRange where
  span : Span
  place : Place
deriving DecidableEq, Repr

def LiveRange.endAt (addr : Address) (r : LiveRange) : LiveRange :=
  { r with span := r.span.endAt addr }

/-- The history of a variable. -/
inductive Storage where
  | ranges (newestFirst : List LiveRange)
  /-- One slot for the whole lifetime. -/
  | fixed (frameOffset : Int) (place : Place)
deriving DecidableEq, Repr

namespace Storage

def isFixed : Storage → Bool
  | .ranges _ => false
  | .fixed _ _ => true

/-- The live ranges, newest first; a fixed slot has none. -/
def newestFirst : Storage → List LiveRange
  | .ranges rs => rs
  | .fixed _ _ => []

/-- Start a new range, which ends the one before it; a fixed slot stays as it is. -/
def startRange (addr : Address) (place : Place) : Storage → Storage
  | .ranges rs => .ranges (⟨⟨addr, none⟩, place⟩ :: rs.modifyHead (·.endAt addr))
  | .fixed offset place => .fixed offset place

/-- End the newest range. -/
def endRange (addr : Address) : Storage → Storage
  | .ranges rs => .ranges (rs.modifyHead (·.endAt addr))
  | .fixed offset place => .fixed offset place

end Storage

/-- Open a new range of a scope, which ends the one before it. -/
def openSpan (addr : Address) (spans : List Span) : List Span :=
  ⟨addr, none⟩ :: spans.modifyHead (·.endAt addr)

/-- End the newest range of a scope. -/
def closeSpan (addr : Address) (spans : List Span) : List Span :=
  spans.modifyHead (·.endAt addr)

/-! ## The tracker -/

structure Lifetimes where
  spans : EntryMap (List Span)
  storages : EntryMap Storage
  /-- The open scopes, the one opened last first. -/
  openScopes : List EntryId
  openVariables : List EntryId

namespace Lifetimes

def empty : Lifetimes where
  spans := ∅
  storages := ∅
  openScopes := []
  openVariables := []

instance : EmptyCollection Lifetimes := ⟨empty⟩

def clear (l : Lifetimes) : Lifetimes :=
  { l with spans := ∅, storages := ∅, openScopes := [], openVariables := [] }

@[simp] theorem clear_eq_empty (l : Lifetimes) : l.clear = empty := rfl

/-- The ranges of a scope, newest first. -/
def spansOf (l : Lifetimes) (scope : EntryId) : List Span := (l.spans[scope]?).getD []

def storage? (l : Lifetimes) (var : EntryId) : Option Storage := l.storages[var]?

def anyOpen (l : Lifetimes) : Bool := !l.openScopes.isEmpty || !l.openVariables.isEmpty

def openScope (l : Lifetimes) (scope : EntryId) (addr : Address) : Lifetimes :=
  { l with
    spans := l.spans.insert scope (openSpan addr (l.spansOf scope))
    openScopes := l.openScopes.insert scope }

def closeScope (l : Lifetimes) (scope : EntryId) (addr : Address) : Lifetimes :=
  { l with
    spans := l.spans.modify scope (closeSpan addr)
    openScopes := l.openScopes.filter (· != scope) }

def startRange (l : Lifetimes) (var : EntryId) (addr : Address) (place : Place) : Lifetimes :=
  let storage := (l.storage? var).getD (.ranges [])
  if storage.isFixed then
    l
  else
    { l with
      storages := l.storages.insert var (storage.startRange addr place)
      openVariables := l.openVariables.insert var }

def endRange (l : Lifetimes) (var : EntryId) (addr : Address) : Lifetimes :=
  { l with
    storages := l.storages.modify var (Storage.endRange addr)
    openVariables := l.openVariables.filter (· != var) }

/-- Give a variable one slot for its whole lifetime, in place of any ranges. -/
def setFixed (l : Lifetimes) (var : EntryId) (frameOffset : Int) (place : Place) : Lifetimes :=
  { l with
    storages := l.storages.insert var (.fixed frameOffset place)
    openVariables := l.openVariables.filter (· != var) }

/-- End every range that is open. -/
def endFunction (l : Lifetimes) (addr : Address) : Lifetimes where
  spans := l.openScopes.foldl (fun m scope => m.modify scope (closeSpan addr)) l.spans
  storages := l.openVariables.foldl (fun m var => m.modify var (Storage.endRange addr)) l.storages
  openScopes := []
  openVariables := []

/-! ## Events -/

inductive Event where
  | openScope (scope : EntryId) (addr : Address)
  | closeScope (scope : EntryId) (addr : Address)
  | startRange (var : EntryId) (addr : Address) (place : Place)
  | endRange (var : EntryId) (addr : Address)
  | setFixed (var : EntryId) (frameOffset : Int) (place : Place)
  | endFunction (addr : Address)
  | clear
deriving DecidableEq, Repr

def apply (l : Lifetimes) : Event → Lifetimes
  | .openScope scope addr => l.openScope scope addr
  | .closeScope scope addr => l.closeScope scope addr
  | .startRange var addr place => l.startRange var addr place
  | .endRange var addr => l.endRange var addr
  | .setFixed var frameOffset place => l.setFixed var frameOffset place
  | .endFunction addr => l.endFunction addr
  | .clear => l.clear

/-- The state after a sequence of events. -/
def run (events : List Event) : Lifetimes := events.foldl apply empty

@[simp] theorem run_nil : run [] = empty := rfl

theorem run_append_singleton (events : List Event) (e : Event) :
    run (events ++ [e]) = (run events).apply e := by
  simp [run]

end Lifetimes

end DebugInfo
