import RecordLinkage.Json.Value

/-!
# Numbers of a JSON text

A number is read character by character. What has been read is summed up in a `Numeral`: where in
the grammar it stands, the digits gathered so far, and the power of ten that they are scaled by.

## Sixty-four bits of digits

Only digits that fit an unsigned 64-bit number are gathered. A digit of the whole part that no
longer fits makes the number a double, and it and the digits after it only count as powers of ten. A
digit of the fraction that does not fit is dropped together with all digits after it. The gathered
number is then scaled once, see `Double.scaleByTen`; for numbers with many digits the result can
differ by one unit in the last place from the double nearest to the text.

## Range

A number too large for a double is an error; one too small is zero. Minus zero is a double, as
integers have one zero.
-/

namespace RecordLinkage

open Number (Double)

/-- Where in the grammar of numbers the reader stands. -/
inductive Numeral.Phase where
  /-- After the minus sign. -/
  | sign
  /-- After a leading zero, which no digit may follow. -/
  | zero
  | whole
  | point
  | fraction
  /-- After the exponent mark. -/
  | mark
  /-- After the sign of the exponent. -/
  | markSign
  | exponent
  deriving DecidableEq, Repr

/-- What has been read of a number. -/
structure Numeral where
  negative : Bool
  /-- Where in the grammar it stands. -/
  phase : Numeral.Phase
  /-- The digits gathered so far. -/
  significand : Nat
  /-- The power of ten that they are scaled by, as far as digits decide it. -/
  scale : Int
  /-- Whether a digit of the whole part has not fitted. -/
  overflown : Bool
  /-- Whether a digit of the fraction has not fitted. -/
  full : Bool
  /-- Whether the exponent carries a minus sign. -/
  exponentNegative : Bool
  exponentDigits : Nat
  deriving DecidableEq, Repr

namespace Numeral

/-- A number that has begun with the given sign. -/
def start (negative : Bool) (phase : Phase) (digit : Nat) : Numeral where
  negative := negative
  phase := phase
  significand := digit
  scale := 0
  overflown := false
  full := false
  exponentNegative := false
  exponentDigits := 0

def digit? (c : Char) : Option Nat := if c.isDigit then some (c.toNat - '0'.toNat) else none

def first? (c : Char) : Option Numeral :=
  if c = '-' then some (start true .sign 0)
  else if c = '0' then some (start false .zero 0)
  else (digit? c).map (start false .whole)

/-- The digits that are gathered stay below this number. -/
def limit : Nat := 2 ^ 64

def pushWhole (n : Numeral) (d : Nat) : Numeral :=
  if n.overflown || limit ≤ n.significand * 10 + d then
    { n with overflown := true, scale := n.scale + 1 }
  else { n with significand := n.significand * 10 + d }

def pushFraction (n : Numeral) (d : Nat) : Numeral :=
  if n.full || limit ≤ n.significand * 10 + d then { n with full := true }
  else { n with significand := n.significand * 10 + d, scale := n.scale - 1 }

def pushExponent (n : Numeral) (d : Nat) : Numeral :=
  { n with exponentDigits := n.exponentDigits * 10 + d }

/-- What a character does to a number. -/
inductive Push where
  /-- The number goes on. -/
  | more (n : Numeral)
  /-- The number ended before this character. -/
  | ended
  /-- The number is cut short by this character. -/
  | broken

/-- The exponent mark, where one may follow. -/
def pushMark (n : Numeral) (c : Char) (otherwise : Push) : Push :=
  if c = 'e' || c = 'E' then .more { n with phase := .mark } else otherwise

/-- Reads one more character. -/
def push (n : Numeral) (c : Char) : Push :=
  match n.phase, digit? c with
  | .sign, some 0 => .more { n with phase := .zero }
  | .sign, some d => .more { n with phase := .whole, significand := d }
  | .sign, none => .broken
  | .zero, some _ => .broken
  | .zero, none => if c = '.' then .more { n with phase := .point } else n.pushMark c .ended
  | .whole, some d => .more (n.pushWhole d)
  | .whole, none => if c = '.' then .more { n with phase := .point } else n.pushMark c .ended
  | .point, some d => .more { n.pushFraction d with phase := .fraction }
  | .point, none => .broken
  | .fraction, some d => .more (n.pushFraction d)
  | .fraction, none => n.pushMark c .ended
  | .mark, some d => .more { n.pushExponent d with phase := .exponent }
  | .mark, none =>
    if c = '+' then .more { n with phase := .markSign }
    else if c = '-' then .more { n with phase := .markSign, exponentNegative := true }
    else .broken
  | .markSign, some d => .more { n.pushExponent d with phase := .exponent }
  | .markSign, none => .broken
  | .exponent, some d => .more (n.pushExponent d)
  | .exponent, none => .ended

/-- Whether the number may end here. -/
def mayEnd (n : Numeral) : Bool :=
  match n.phase with
  | .zero | .whole | .fraction | .exponent => true
  | _ => false

/-- Whether the number is a double and not an integer. -/
def isDouble (n : Numeral) : Bool :=
  match n.phase with
  | .fraction | .exponent => true
  | _ => n.overflown

/-- Exponents past this one decide the result by themselves. -/
def exponentLimit : Nat := 2 ^ 31

/-- The double that has been read; nothing where it is infinite. -/
def double? (n : Numeral) : Option Double :=
  if exponentLimit ≤ n.exponentDigits then
    if n.significand ≠ 0 && !n.exponentNegative then none else some (Double.zero n.negative)
  else
    let e : Int := if n.exponentNegative then -(n.exponentDigits : Int) else n.exponentDigits
    ((Double.ofNat n.significand).scaleByTen (n.scale + e)).map (·.withSign n.negative)

/-- The number, where it may end; nothing where it is out of range. -/
def value? (n : Numeral) : Option JsonNumber :=
  if !n.mayEnd then none
  else if n.isDouble then n.double?.map .double
  else if !n.negative then some (.int n.significand)
  else if n.significand = 0 || 2 ^ 63 < n.significand then
    some (.double ((Double.ofNat n.significand).withSign true))
  else some (.int (-(n.significand : Int)))

/-- A number that may end ends before a character that belongs to no number. -/
theorem push_of_foreign {n : Numeral} {v : JsonNumber} (h : n.value? = some v) {c : Char}
    (hdigit : digit? c = none) (hpoint : c ≠ '.') (hmark : (c = 'e' || c = 'E') = false) :
    n.push c = .ended := by
  have hend : n.mayEnd = true := by
    cases hmay : n.mayEnd with
    | true => rfl
    | false => simp [value?, hmay] at h
  obtain ⟨negative, phase, significand, scale, overflown, full, exponentNegative, digits⟩ := n
  cases phase with
  | zero | whole | fraction => simp [push, hdigit, hpoint, pushMark, hmark]
  | exponent => simp only [push, hdigit]
  | sign | point | mark | markSign => exact Bool.noConfusion hend

/-- A number that may end ends before a blank. -/
theorem push_eq_ended {n : Numeral} {v : JsonNumber} (h : n.value? = some v) {c : Char}
    (hc : c = ' ' ∨ c = '\n' ∨ c = '\t' ∨ c = '\r') : n.push c = .ended := by
  rcases hc with rfl | rfl | rfl | rfl <;>
    exact push_of_foreign h (by decide) (by decide) (by decide)

end Numeral

end RecordLinkage
