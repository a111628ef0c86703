/-! Sets of code points given as increasing, disjoint ranges with both ends included. -/

namespace AssemblyInfo.Text

/-- Whether `n` lies in one of the ranges. A range that starts above `n` ends the search. -/
def covers : List (Nat × Nat) → Nat → Bool
  | [], _ => false
  | (low, high) :: ranges, n => if n < low then false else n ≤ high || covers ranges n

end AssemblyInfo.Text
