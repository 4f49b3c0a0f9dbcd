import Mathlib.Data.List.Basic

/-!
# Copies of table entries

A cache remembers entries of a table under their keys.  It is current as long as
every copy agrees with the table; it stays current under any change of the table
that spares the keys it remembers, and any other change makes it stale.
-/

namespace Zeos.Library

universe u v

variable {κ : Type u} {ν : Type v} {table table' : κ → ν}
  {cache cache' : List (κ × ν)}

/-- Every copy agrees with the table. -/
def Current (table : κ → ν) (cache : List (κ × ν)) : Prop :=
  ∀ copy ∈ cache, table copy.1 = copy.2

namespace Current

theorem nil (table : κ → ν) : Current table [] :=
  fun _ member => absurd member List.not_mem_nil

/-- A copy that is made now is current. -/
theorem remember (current : Current table cache) (key : κ) :
    Current table ((key, table key) :: cache) := by
  intro copy member
  rcases List.mem_cons.mp member with made | earlier
  · rw [made]
  · exact current copy earlier

/-- After a change of the table the cache is current exactly if the change
spares what it remembers. -/
theorem change_iff (current : Current table cache) :
    Current table' cache ↔ ∀ copy ∈ cache, table' copy.1 = table copy.1 := by
  refine forall₂_congr fun copy member => ?_
  rw [current copy member]

end Current

end Zeos.Library
