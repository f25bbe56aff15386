import Std.Data.ExtTreeMap

/-!
# Orders for keys

The tables of a unit are kept in key order.  A key is ordered by mapping it to something that is
already ordered; `lawfulEqCmp_compareOn` says that nothing is lost if the map is injective.
Pairs are ordered by their first part, then by their second.  Two maps with such keys are equal if
they have the same entries.
-/

namespace DebugInfo

theorem lawfulEqCmp_compareOn {α β : Type} [Ord β] [Std.LawfulEqOrd β] {f : α → β}
    (inj : ∀ {a b : α}, f a = f b → a = b) : Std.LawfulEqCmp (compareOn f) where
  compare_self := Std.ReflOrd.compare_self
  eq_of_compare h := inj (Std.LawfulEqOrd.eq_of_compare h)

instance instOrdProd {α β : Type} [Ord α] [Ord β] : Ord (α × β) := lexOrd

instance instTransOrdProd {α β : Type} [Ord α] [Ord β] [Std.TransOrd α] [Std.TransOrd β] :
    Std.TransOrd (α × β) :=
  inferInstanceAs (Std.TransCmp (@compare (α × β) lexOrd))

instance instLawfulEqOrdProd {α β : Type} [Ord α] [Ord β] [Std.LawfulEqOrd α]
    [Std.LawfulEqOrd β] : Std.LawfulEqOrd (α × β) :=
  inferInstanceAs (Std.LawfulEqCmp (@compare (α × β) lexOrd))

/-- Inserting what is there already. -/
theorem insert_of_getElem? {κ α : Type} [Ord κ] [Std.TransOrd κ] [Std.LawfulEqOrd κ]
    {m : Std.ExtTreeMap κ α} {k : κ} {a : α} (h : m[k]? = some a) : m.insert k a = m := by
  refine Std.ExtTreeMap.ext_getElem? fun k' => ?_
  rw [Std.ExtTreeMap.getElem?_insert]
  split
  · next heq => exact Std.compare_eq_iff_eq.1 heq ▸ h.symm
  · rfl

end DebugInfo
