import DebugInfo.Location

/-!
# Labels

Positions in the code of a function are referred to by number until their addresses are known.
-/

namespace DebugInfo

structure Labels where
  addresses : Std.ExtTreeMap (Symbol × Nat) Address

namespace Labels

def empty : Labels where
  addresses := ∅

instance : EmptyCollection Labels := ⟨empty⟩

def clear (l : Labels) : Labels := { l with addresses := ∅ }

@[simp] theorem clear_eq_empty (l : Labels) : l.clear = ∅ := rfl

/-- Set the address of a position, whether it had one before or not. -/
def add (l : Labels) (function : Symbol) (position : Nat) (address : Address) : Labels where
  addresses := l.addresses.insert (function, position) address

def address? (l : Labels) (function : Symbol) (position : Nat) : Option Address :=
  l.addresses[(function, position)]?

@[simp] theorem address?_empty (function : Symbol) (position : Nat) :
    empty.address? function position = none := by
  simp [address?, empty]

theorem address?_add (l : Labels) (function function' : Symbol) (position position' : Nat)
    (address : Address) :
    (l.add function position address).address? function' position' =
      if function = function' ∧ position = position' then some address
      else l.address? function' position' := by
  simp [address?, add, Std.ExtTreeMap.getElem?_insert]

end Labels

end DebugInfo
