import RecordLinkage.Number.Decimal
import RecordLinkage.Order.Sorted

/-!
# JSON values

Payloads and parameters are JSON values. The keys of an object that was read ascend, and of a key
that is given twice the last value counts. An answer lists its fields in an order of its own.

## Numbers

A number written without a fraction and without an exponent is an integer as long as it fits 64
bits, signed or unsigned; all other numbers are doubles. The two kinds stay apart: `1` and `1.0` are
different values, and each is written in its own way.
-/

namespace RecordLinkage

open Number (Double)

/-- A number of a JSON text. -/
inductive JsonNumber where
  /-- An integer of 64 bits, signed or unsigned. -/
  | int (value : Int)
  | double (value : Double)
  deriving DecidableEq, Repr, Inhabited

namespace JsonNumber

/-- The nearest double. -/
def toDouble : JsonNumber → Double
  | int i => Double.ofInt i
  | double d => d

/-- Equality of values: integers by value, doubles by value, never across the two kinds. -/
def same : JsonNumber → JsonNumber → Bool
  | int a, int b => a == b
  | double a, double b => a.same b
  | _, _ => false

theorem same_self (a : JsonNumber) : a.same a = true := by
  cases a with
  | int i => exact beq_self_eq_true i
  | double d => exact d.same_self

def text : JsonNumber → List Char
  | int i => Number.integerText i
  | double d => d.text

end JsonNumber

inductive Json where
  | null
  | bool (value : Bool)
  | number (value : JsonNumber)
  | string (value : String)
  | array (items : List Json)
  /-- Each key is there once. -/
  | object (fields : List (String × Json))
  deriving Repr, Inhabited

namespace Json

def int (i : Int) : Json := number (.int i)

def nat (n : Nat) : Json := int n

/-- The value of a field; nothing for a value that is not an object. -/
def get? (key : String) : Json → Option Json
  | object fields => Sorted.get? key fields
  | _ => none

def string? : Json → Option String
  | string s => some s
  | _ => none

def bool? : Json → Option Bool
  | bool b => some b
  | _ => none

def int? : Json → Option Int
  | number (.int i) => some i
  | _ => none

def array? : Json → Option (List Json)
  | array items => some items
  | _ => none

/-! ## Equality

Numbers compare by value, so that the two zeros are equal; everything else compares part by part. -/

mutual

def same : Json → Json → Bool
  | null, null => true
  | bool a, bool b => a == b
  | number a, number b => a.same b
  | string a, string b => a == b
  | array a, array b => sameItems a b
  | object a, object b => sameFields a b
  | _, _ => false

def sameItems : List Json → List Json → Bool
  | [], [] => true
  | a :: as, b :: bs => same a b && sameItems as bs
  | _, _ => false

def sameFields : List (String × Json) → List (String × Json) → Bool
  | [], [] => true
  | (k, a) :: as, (l, b) :: bs => k == l && same a b && sameFields as bs
  | _, _ => false

end

mutual

theorem same_self : ∀ v : Json, same v v = true
  | null => rfl
  | bool b => by simp [same]
  | number n => by simp [same, n.same_self]
  | string s => by simp [same]
  | array items => by simp [same, sameItems_self items]
  | object fields => by simp [same, sameFields_self fields]

theorem sameItems_self : ∀ items : List Json, sameItems items items = true
  | [] => rfl
  | v :: rest => by simp [sameItems, same_self v, sameItems_self rest]

theorem sameFields_self : ∀ fields : List (String × Json), sameFields fields fields = true
  | [] => rfl
  | (key, v) :: rest => by simp [sameFields, same_self v, sameFields_self rest]

end

end Json

end RecordLinkage
