/-!
# Rounding a quotient

Every rounding of this library is of one kind: a quotient of two natural numbers goes to the nearest
whole number, and a quotient half way between two goes to the even one.
-/

namespace RecordLinkage.Number

/-- The whole number nearest to `num / den`; a tie goes to the even neighbour. -/
def roundDiv (num den : Nat) : Nat :=
  let q := num / den
  let twice := 2 * (num % den)
  if twice < den then q
  else if den < twice then q + 1
  else if q % 2 = 0 then q else q + 1

/-- Rounding stays between the two neighbours. -/
theorem roundDiv_le (num den : Nat) : roundDiv num den ≤ num / den + 1 := by
  simp only [roundDiv]
  split
  · omega
  · split
    · omega
    · split <;> omega

end RecordLinkage.Number
