/-!
# Places in a list

A place in a list counts from the start if it is not negative, and back from the end if it is.
-/

set_option autoImplicit false

namespace Calculator

/-- The element at a place that counts from the start, or back from the end if it is negative; minus
one is the last element. -/
def atPlace? {α : Type} (l : List α) (place : Int) : Option α :=
  if 0 ≤ place then l[place.toNat]?
  else if place + l.length < 0 then none
  else l[(place + l.length).toNat]?

/-- A place that is not negative counts from the start. -/
theorem atPlace?_natCast {α : Type} (l : List α) (n : Nat) : atPlace? l (n : Int) = l[n]? := by
  simp [atPlace?]

end Calculator
