import DebugInfo.Lifetimes

/-!
# Histories of one entity

The history of one scope, or of one variable, follows from what happens to it.  Here each of the two
has a machine of its own, which knows nothing of other entities and of what is open elsewhere.  The
end of a function is for it an end like any other.
-/

namespace DebugInfo.Lifetimes

/-! ## A scope -/

inductive ScopeEvent where
  | opened (addr : Address)
  | closed (addr : Address)
  | forgotten
deriving DecidableEq, Repr

/-- End the newest range at `addr`, if it is open. -/
def endNewest (addr : Address) : List Span → List Span
  | ⟨start, none⟩ :: spans => ⟨start, some addr⟩ :: spans
  | spans => spans

def ScopeEvent.apply (spans : List Span) : ScopeEvent → List Span
  | .opened addr => ⟨addr, none⟩ :: endNewest addr spans
  | .closed addr => endNewest addr spans
  | .forgotten => []

/-- What an event means to a scope. -/
def Event.toScope? (scope : EntryId) : Event → Option ScopeEvent
  | .openScope s addr => if s = scope then some (.opened addr) else none
  | .closeScope s addr => if s = scope then some (.closed addr) else none
  | .endFunction addr => some (.closed addr)
  | .clear => some .forgotten
  | _ => none

/-- The ranges of a scope, newest first, after a sequence of events. -/
def scopeHistory (scope : EntryId) (events : List Event) : List Span :=
  (events.filterMap (·.toScope? scope)).foldl ScopeEvent.apply []

def NewestOpen (spans : List Span) : Prop := ∃ start rest, spans = ⟨start, none⟩ :: rest

/-- To close a scope is to end its newest range. -/
theorem closeSpan_eq (addr : Address) (spans : List Span) :
    closeSpan addr spans = endNewest addr spans := by
  rcases spans with _ | ⟨⟨start, _ | stop⟩, spans⟩ <;> rfl

/-- To open a scope is to end its newest range and to begin another. -/
theorem openSpan_eq (addr : Address) (spans : List Span) :
    openSpan addr spans = ⟨addr, none⟩ :: endNewest addr spans :=
  congrArg _ (closeSpan_eq addr spans)

/-- A range is open when it begins. -/
theorem newestOpen_cons (addr : Address) (spans : List Span) :
    NewestOpen (⟨addr, none⟩ :: spans) :=
  ⟨addr, spans, rfl⟩

@[simp] theorem not_newestOpen_nil : ¬ NewestOpen [] := by
  rintro ⟨_, _, h⟩
  cases h

/-- When the newest range is ended, none is open. -/
theorem not_newestOpen_endNewest (addr : Address) (spans : List Span) :
    ¬ NewestOpen (endNewest addr spans) := by
  rintro ⟨start, rest, h⟩
  rcases spans with _ | ⟨⟨start', _ | stop⟩, spans⟩ <;> simp [endNewest] at h

/-- Where nothing is open, there is nothing to end. -/
theorem endNewest_of_not_newestOpen {spans : List Span} (h : ¬ NewestOpen spans)
    (addr : Address) : endNewest addr spans = spans := by
  rcases spans with _ | ⟨⟨start, _ | stop⟩, spans⟩
  · rfl
  · exact absurd (newestOpen_cons start spans) h
  · rfl

/-- The newest range ends once. -/
theorem closeSpan_closeSpan (addr : Address) (spans : List Span) :
    closeSpan addr (closeSpan addr spans) = closeSpan addr spans := by
  simp only [closeSpan_eq]
  exact endNewest_of_not_newestOpen (not_newestOpen_endNewest addr spans) addr

theorem endNewest_ne_nil {spans : List Span} (h : spans ≠ []) (addr : Address) :
    endNewest addr spans ≠ [] := by
  rcases spans with _ | ⟨⟨start, _ | stop⟩, spans⟩
  · exact absurd rfl h
  · exact List.cons_ne_nil _ _
  · exact List.cons_ne_nil _ _

/-! ## A variable -/

inductive VariableEvent where
  | started (addr : Address) (place : Place)
  | ended (addr : Address)
  | fixed (frameOffset : Int) (place : Place)
  | forgotten
deriving DecidableEq, Repr

/-- End the newest live range at `addr`, if it is open.  A fixed slot stays as it is. -/
def endNewestRange (addr : Address) : Storage → Storage
  | .ranges (⟨⟨start, none⟩, place⟩ :: ranges) => .ranges (⟨⟨start, some addr⟩, place⟩ :: ranges)
  | storage => storage

/-- Put a live range in front of the others.  A fixed slot stays as it is. -/
def pushRange (range : LiveRange) : Storage → Storage
  | .ranges ranges => .ranges (range :: ranges)
  | .fixed frameOffset place => .fixed frameOffset place

/-- A variable that nothing has happened to has no storage, not even an empty history. -/
def VariableEvent.apply (storage : Option Storage) : VariableEvent → Option Storage
  | .started addr place =>
      some (pushRange ⟨⟨addr, none⟩, place⟩ (endNewestRange addr (storage.getD (.ranges []))))
  | .ended addr => storage.map (endNewestRange addr)
  | .fixed frameOffset place => some (.fixed frameOffset place)
  | .forgotten => none

/-- What an event means to a variable. -/
def Event.toVariable? (var : EntryId) : Event → Option VariableEvent
  | .startRange v addr place => if v = var then some (.started addr place) else none
  | .endRange v addr => if v = var then some (.ended addr) else none
  | .setFixed v frameOffset place => if v = var then some (.fixed frameOffset place) else none
  | .endFunction addr => some (.ended addr)
  | .clear => some .forgotten
  | _ => none

/-- The storage of a variable after a sequence of events. -/
def variableHistory (var : EntryId) (events : List Event) : Option Storage :=
  (events.filterMap (·.toVariable? var)).foldl VariableEvent.apply none

def RangeOpen (storage : Storage) : Prop :=
  ∃ start place rest, storage = .ranges (⟨⟨start, none⟩, place⟩ :: rest)

theorem endRange_eq (addr : Address) (storage : Storage) :
    storage.endRange addr = endNewestRange addr storage := by
  rcases storage with (_ | ⟨⟨⟨start, _ | stop⟩, place⟩, ranges⟩) | ⟨offset, place⟩ <;> rfl

/-- To start a range is to end the newest one and to add another. -/
theorem startRange_eq (addr : Address) (place : Place) (storage : Storage) :
    storage.startRange addr place =
      pushRange ⟨⟨addr, none⟩, place⟩ (endNewestRange addr storage) := by
  rcases storage with (_ | ⟨⟨⟨start, _ | stop⟩, place⟩, ranges⟩) | ⟨offset, place⟩ <;> rfl

theorem not_rangeOpen_endNewestRange (addr : Address) (storage : Storage) :
    ¬ RangeOpen (endNewestRange addr storage) := by
  rintro ⟨start, place, rest, h⟩
  rcases storage with (_ | ⟨⟨⟨start', _ | stop⟩, place'⟩, ranges⟩) | ⟨offset, place'⟩ <;>
    simp [endNewestRange] at h

theorem endNewestRange_of_not_rangeOpen {storage : Storage} (h : ¬ RangeOpen storage)
    (addr : Address) : endNewestRange addr storage = storage := by
  rcases storage with (_ | ⟨⟨⟨start, _ | stop⟩, place⟩, ranges⟩) | ⟨offset, place⟩
  · rfl
  · exact absurd ⟨start, place, ranges, rfl⟩ h
  · rfl
  · rfl

theorem endRange_endRange (addr : Address) (storage : Storage) :
    (storage.endRange addr).endRange addr = storage.endRange addr := by
  simp only [endRange_eq]
  exact endNewestRange_of_not_rangeOpen (not_rangeOpen_endNewestRange addr storage) addr

@[simp] theorem not_rangeOpen_fixed (frameOffset : Int) (place : Place) :
    ¬ RangeOpen (.fixed frameOffset place) := by
  rintro ⟨_, _, _, h⟩
  cases h

/-- Unless the slot is fixed, the new range is open. -/
theorem rangeOpen_startRange {storage : Storage} (h : storage.isFixed = false) (addr : Address)
    (place : Place) : RangeOpen (storage.startRange addr place) := by
  cases storage with
  | ranges ranges => exact ⟨addr, place, _, rfl⟩
  | fixed offset place => cases h

/-- A fixed slot takes no new range. -/
theorem startRange_of_isFixed {storage : Storage} (h : storage.isFixed = true) (addr : Address)
    (place : Place) : storage.startRange addr place = storage := by
  cases storage with
  | ranges ranges => cases h
  | fixed offset place => rfl

end DebugInfo.Lifetimes
