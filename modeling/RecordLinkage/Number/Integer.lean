import RecordLinkage.Number.Decimal

/-!
# Integers from text

A whole number is written with decimal digits, a sign in front of them being optional. Whoever reads
one says which signs are allowed and within which bounds the number has to lie.
-/

namespace RecordLinkage.Number

/-- The number that decimal digits stand for; there has to be one at least. -/
def ofDigits? (cs : List Char) : Option Nat :=
  if cs.isEmpty || !cs.all Char.isDigit then none
  else some (cs.foldl (fun n c ↦ n * 10 + (c.toNat - '0'.toNat)) 0)

/-- An integer with an optional sign. -/
def signed? (cs : List Char) : Option Int :=
  match cs with
  | '-' :: ds => (ofDigits? ds).map fun n ↦ -(n : Int)
  | '+' :: ds => (ofDigits? ds).map fun n ↦ (n : Int)
  | ds => (ofDigits? ds).map fun n ↦ (n : Int)

/-- A natural number with an optional plus sign. -/
def unsigned? (cs : List Char) : Option Nat :=
  match cs with
  | '+' :: ds => ofDigits? ds
  | ds => ofDigits? ds

def leastSigned : Int := -(2 ^ 63)

def greatestSigned : Int := 2 ^ 63 - 1

def signed64? (s : String) : Option Int :=
  (signed? s.toList).filter fun i ↦ leastSigned ≤ i && i ≤ greatestSigned

def unsigned64? (s : String) : Option Nat :=
  (unsigned? s.toList).filter fun n ↦ n < 2 ^ 64

/-- An unsigned 32-bit number, which may be written as a signed one. -/
def unsigned32? (s : String) : Option Nat :=
  ((signed64? s).filter fun i ↦ 0 ≤ i && i < 2 ^ 32).map Int.toNat

def natText (n : Nat) : String := String.ofList (decimalDigits n)

end RecordLinkage.Number
