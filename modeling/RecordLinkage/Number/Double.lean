import RecordLinkage.Number.Power
import RecordLinkage.Number.Rounding

/-!
# Double precision numbers

A finite binary64 number is a sign and a magnitude `mantissa * 2 ^ exponent`. Everything here is
computed in exact whole-number arithmetic: reading, comparing and writing a number then have
meanings that can be reasoned about, which operations on a machine word would not.

## Canonical form

The mantissa has 53 bits unless the exponent is the least one. Equal magnitudes then have equal
representations, and the order of magnitudes is the order of quotients. The two zeros differ in the
sign alone, and compare as equal.

## Rounding once, rounding twice

`ofRatio` rounds a quotient correctly. The numbers of a JSON text are not read that way: their
digits are first gathered in 64 bits and then scaled by a rounded power of ten, which rounds a
second time. `scaleByTen` is that second step; the module that reads numbers combines them.
-/

namespace RecordLinkage.Number

/-- A finite binary64 number. -/
structure Double where
  /-- Whether the number carries a minus sign; a zero may. -/
  negative : Bool
  /-- The significant bits, as a whole number below `2 ^ 53`. -/
  mantissa : Nat
  /-- The power of two that the mantissa is scaled by, at least `-1074`. -/
  exponent : Int
  deriving DecidableEq, Repr, Inhabited

namespace Double

/-- The least exponent: that of the numbers without an implicit leading bit. -/
def leastExponent : Int := -1074

/-- The greatest exponent; past it a magnitude is infinite. -/
def greatestExponent : Int := 971

/-- Zero with a sign. -/
def zero (negative : Bool) : Double := ⟨negative, 0, leastExponent⟩

/-- The same number with another sign. -/
def withSign (d : Double) (negative : Bool) : Double := { d with negative := negative }

/-- The numerator of `mantissa * 2 ^ exponent` as a quotient of whole numbers. -/
def numerator (d : Double) : Nat := d.mantissa * Nat.pow 2 d.exponent.toNat

/-- The denominator of `mantissa * 2 ^ exponent` as a quotient of whole numbers. -/
def denominator (d : Double) : Nat := Nat.pow 2 (-d.exponent).toNat

/-- The double nearest to `num / den`, with ties to even; nothing where it is infinite. -/
def ofRatio (num den : Nat) : Option Double :=
  if num = 0 then some (zero false)
  else
    let guess : Int := num.log2 - den.log2 - 53
    let low := max guess leastExponent
    let scaled (e : Int) : Nat × Nat := (num * Nat.pow 2 (-e).toNat, den * Nat.pow 2 e.toNat)
    let (n, d) := scaled low
    let e := if n / d < 2 ^ 53 then low else low + 1
    let (n, d) := scaled e
    let q := roundDiv n d
    let (q, e) := if q = 2 ^ 53 then (2 ^ 52, e + 1) else (q, e)
    if greatestExponent < e then none else some ⟨false, q, e⟩

/-- The double nearest to a whole number below `2 ^ 1023`. -/
def ofNat (n : Nat) : Double := (ofRatio n 1).getD (zero false)

/-- The double nearest to an integer. -/
def ofInt (i : Int) : Double := (ofNat i.natAbs).withSign (i < 0)

/-- The product with the double nearest to `10 ^ k`, rounded. -/
def timesTen (d : Double) (k : Nat) : Option Double :=
  let p := ofNat (Nat.pow 10 k)
  (ofRatio (d.numerator * p.numerator) (d.denominator * p.denominator)).map (·.withSign d.negative)

/-- The quotient by the double nearest to `10 ^ k`, rounded. -/
def overTen (d : Double) (k : Nat) : Double :=
  let p := ofNat (Nat.pow 10 k)
  ((ofRatio (d.numerator * p.denominator) (d.denominator * p.numerator)).map
    (·.withSign d.negative)).getD (zero d.negative)

/-- The greatest power of ten that is a double. -/
def greatestPower : Nat := 308

/-- Division by `10 ^ k` for any `k`, in steps of the greatest power of ten there is. Two full steps
leave nothing of a 64-bit number, so a further one would change nothing. -/
def overTens (d : Double) (k : Nat) : Double :=
  if k ≤ greatestPower then d.overTen k
  else
    let d := d.overTen greatestPower
    if k ≤ 2 * greatestPower then d.overTen (k - greatestPower)
    else (d.overTen greatestPower).overTen (min (k - 2 * greatestPower) greatestPower)

/-- The number scaled by `10 ^ k`, each factor and the result rounded; nothing where the result is
infinite. -/
def scaleByTen (d : Double) (k : Int) : Option Double :=
  if 0 ≤ k then
    if k.toNat ≤ greatestPower then d.timesTen k.toNat
    else if d.mantissa = 0 then some d
    else none
  else some (d.overTens (-k).toNat)

/-! ## Order -/

/-- The signed numerator over `denominator`. -/
def signedNumerator (d : Double) : Int :=
  if d.negative then -(d.numerator : Int) else d.numerator

/-- Whether one number is less than another; the two zeros are not. -/
def lt (a b : Double) : Bool :=
  a.signedNumerator * b.denominator < b.signedNumerator * a.denominator

/-- Whether two numbers are equal; the two zeros are. -/
def same (a b : Double) : Bool :=
  a.signedNumerator * b.denominator == b.signedNumerator * a.denominator

theorem same_self (a : Double) : a.same a = true := by simp [same]

theorem same_comm (a b : Double) : a.same b = b.same a := by
  rw [Bool.eq_iff_iff]
  simp only [same, beq_iff_eq]
  exact eq_comm

end Double

end RecordLinkage.Number
