import RecordLinkage.Number.Double

/-!
# Decimal text of doubles

A double is written with as few digits as tell it from its neighbours, and of the numbers with that
many digits the one nearest to it. Two decimal numbers tell a double from its neighbours when they
round to it, so the question is about an interval: the reals nearer to the double than to the next
one on either side, with the end points when its mantissa is even.

`shortest` walks down the powers of ten. On each grid it looks at the two multiples around the
number; the first grid with a multiple inside the interval has the fewest digits. Seventeen digits
always suffice.

## Layout

Numbers whose point falls within or near the digits are written with a point and at least one digit
on either side of it; the others with an exponent.
-/

namespace RecordLinkage.Number

/-- A decimal number `digits * 10 ^ power`. -/
structure Decimal where
  /-- The significant digits as a whole number. -/
  digits : Nat
  /-- The power of ten that they are scaled by. -/
  power : Int
  deriving DecidableEq, Repr, Inhabited

def decimalDigits (n : Nat) : List Char :=
  if n < 10 then [Char.ofNat ('0'.toNat + n)]
  else decimalDigits (n / 10) ++ [Char.ofNat ('0'.toNat + n % 10)]

def integerText (i : Int) : List Char :=
  if i < 0 then '-' :: decimalDigits i.natAbs else decimalDigits i.natAbs

namespace Double

/-- Whether `num / den` rounds to the magnitude of a number. Both ends of the interval are scaled
by four times the unit of the mantissa, so that they are whole. -/
def roundsTo (d : Double) (num den : Nat) : Bool :=
  let unit := Nat.pow 2 d.exponent.toNat
  let scale := 4 * den
  let lowGap := if d.mantissa = 2 ^ 52 && leastExponent < d.exponent then 1 else 2
  let here := 4 * num * d.denominator
  let low := (4 * d.mantissa - lowGap) * unit * den
  let high := (4 * d.mantissa + 2) * unit * den
  let inside := low < here && here < high
  let atEnd := (low == here || here == high) && d.mantissa % 2 == 0
  0 < scale && (inside || atEnd)

/-- The power of ten of the first digit of a positive number. -/
def leadingPower (d : Double) : Int :=
  let shift : Nat := 400
  let scaled := d.numerator * Nat.pow 10 shift / d.denominator
  ((decimalDigits scaled).length : Int) - 1 - shift

/-- The multiple of `10 ^ power` that is to be written, if one of the two around the number rounds
to it. Of two that do, the nearer is taken, and of two equally near the even one. -/
def onGrid? (d : Double) (power : Int) : Option Decimal :=
  let num := d.numerator * Nat.pow 10 (-power).toNat
  let den := d.denominator * Nat.pow 10 power.toNat
  let floor := num / den
  let fits (c : Nat) : Bool :=
    0 < c && d.roundsTo (c * Nat.pow 10 power.toNat) (Nat.pow 10 (-power).toNat)
  let nearest := roundDiv num den
  if fits nearest then some ⟨nearest, power⟩
  else if fits floor then some ⟨floor, power⟩
  else if fits (floor + 1) then some ⟨floor + 1, power⟩
  else none

/-- The decimal number with the fewest digits that rounds to a positive double. -/
def shortest (d : Double) : Decimal :=
  let top := d.leadingPower
  ((List.range 18).findSome? fun (n : Nat) ↦ d.onGrid? (top + 1 - n)).getD ⟨0, 0⟩

/-- The text of a decimal number of at most 17 digits, with a point or an exponent. -/
def layout (n : Decimal) : List Char :=
  let ds := decimalDigits n.digits
  let count : Int := ds.length
  let point := count + n.power
  if 0 ≤ n.power && point ≤ 16 then
    ds ++ List.replicate n.power.toNat '0' ++ ['.', '0']
  else if 0 < point && point ≤ 16 then
    ds.take point.toNat ++ '.' :: ds.drop point.toNat
  else if -5 < point && point ≤ 0 then
    ['0', '.'] ++ List.replicate (-point).toNat '0' ++ ds
  else
    match ds with
    | [] => []
    | [c] => c :: 'e' :: integerText (point - 1)
    | c :: rest => c :: '.' :: rest ++ 'e' :: integerText (point - 1)

def text (d : Double) : List Char :=
  let body := if d.mantissa = 0 then ['0', '.', '0'] else layout d.shortest
  if d.negative then '-' :: body else body

end Double

end RecordLinkage.Number
