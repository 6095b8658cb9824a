import RecordLinkage.Number.Power

/-!
# Identifiers of 128 bits

Records and clusters are named by 128-bit identifiers, written as 32 hexadecimal digits in groups
that hyphens separate. The order of identifiers is the order of the numbers. It is also the order of
the written forms, because all of them have the same length, hyphens stand at the same places, and
the lower-case digits ascend in code point order.

## Reading

Four spellings are read: with hyphens, without hyphens, with hyphens in braces, and with hyphens
after the words `urn:uuid:`. Digits may be of either case; writing always gives lower case with
hyphens.

## Fresh identifiers

Identifiers are taken from a supply that counts upwards. Whatever is taken is greater than all that
was taken before, so the order of identifiers is the order of creation.
-/

namespace RecordLinkage

structure Uuid where
  value : Fin (2 ^ 128)
  deriving DecidableEq, Repr

namespace Uuid

instance : LT Uuid := ⟨fun a b ↦ a.value < b.value⟩

instance : LE Uuid := ⟨fun a b ↦ a.value ≤ b.value⟩

instance : DecidableLT Uuid := fun a b ↦ inferInstanceAs (Decidable (a.value < b.value))

instance : DecidableLE Uuid := fun a b ↦ inferInstanceAs (Decidable (a.value ≤ b.value))

instance : Inhabited Uuid := ⟨⟨0⟩⟩

theorem lt_iff {a b : Uuid} : a < b ↔ a.value < b.value := Iff.rfl

/-- The identifier of a number, modulo `2 ^ 128`. -/
def ofNat (n : Nat) : Uuid := ⟨Fin.ofNat (2 ^ 128) n⟩

/-! ## Writing -/

/-- A hexadecimal digit, in lower case. -/
def digitChar (n : Nat) : Char :=
  if n < 10 then Char.ofNat ('0'.toNat + n) else Char.ofNat ('a'.toNat + (n - 10))

/-- The last `count` hexadecimal digits of a number, the most significant one first. -/
def digits : Nat → Nat → List Nat
  | 0, _ => []
  | count + 1, n => digits count (n / 16) ++ [n % 16]

/-- Groups of 8, 4, 4, 4 and 12 characters, with hyphens between them. -/
def grouped (cs : List Char) : List Char :=
  cs.take 8 ++ '-' :: (cs.drop 8).take 4 ++ '-' :: (cs.drop 12).take 4 ++
    '-' :: (cs.drop 16).take 4 ++ '-' :: cs.drop 20

def chars (u : Uuid) : List Char := grouped ((digits 32 u.value.val).map digitChar)

def text (u : Uuid) : String := String.ofList u.chars

/-! ## Reading -/

/-- The value of a hexadecimal digit of either case. -/
def digit? (c : Char) : Option Nat :=
  if c.isDigit then some (c.toNat - '0'.toNat)
  else if 'a' ≤ c && c ≤ 'f' then some (c.toNat - 'a'.toNat + 10)
  else if 'A' ≤ c && c ≤ 'F' then some (c.toNat - 'A'.toNat + 10)
  else none

/-- The number that hexadecimal digits stand for. -/
def ofDigits? (cs : List Char) : Option Nat :=
  cs.foldlM (fun n c ↦ (digit? c).map (n * 16 + ·)) 0

private def ofPlain? (cs : List Char) : Option Uuid :=
  if cs.length = 32 then (ofDigits? cs).map ofNat else none

private def ofGrouped? (cs : List Char) : Option Uuid :=
  let plain := cs.filter (· != '-')
  if cs.length = 36 && grouped plain == cs then ofPlain? plain else none

private def scheme : List Char := ['u', 'r', 'n', ':', 'u', 'u', 'i', 'd', ':']

/-- Reads an identifier in any of its spellings. -/
def ofChars? (cs : List Char) : Option Uuid :=
  match cs.length with
  | 32 => ofPlain? cs
  | 36 => ofGrouped? cs
  | 38 =>
    if cs.head? = some '\x7b' && cs.getLast? = some '\x7d' then
      ofGrouped? ((cs.drop 1).take 36)
    else none
  | 45 => if cs.take 9 = scheme then ofGrouped? (cs.drop 9) else none
  | _ => none

/-- Reads an identifier in any of its spellings. -/
def ofText? (s : String) : Option Uuid := ofChars? s.toList

theorem length_grouped {cs : List Char} (h : cs.length = 32) : (grouped cs).length = 36 := by
  simp [grouped, h]

/-- Without the hyphens the groups are what they were made of. -/
theorem filter_grouped {cs : List Char} (h : '-' ∉ cs) :
    (grouped cs).filter (· != '-') = cs := by
  have hkept : ∀ ds : List Char, (∀ c ∈ ds, c ∈ cs) → ds.filter (· != '-') = ds := by
    intro ds hds
    refine List.filter_eq_self.mpr fun c hc ↦ ?_
    simpa using fun heq : c = '-' ↦ h (heq ▸ hds c hc)
  have htake : ∀ m n, ((cs.drop m).take n).filter (· != '-') = (cs.drop m).take n := fun m n ↦
    hkept _ fun _ hc ↦ List.mem_of_mem_drop (List.mem_of_mem_take hc)
  have hdrop := hkept (cs.drop 20) fun _ hc ↦ List.mem_of_mem_drop hc
  have hhead := htake 0 8
  rw [List.drop_zero] at hhead
  have hrest : ∀ m n, (cs.drop m).take n ++ cs.drop (m + n) = cs.drop m := fun m n ↦ by
    rw [← List.drop_drop, List.take_append_drop]
  simp only [grouped, List.filter_append, List.filter_cons, bne_self_eq_false, Bool.false_eq_true,
    if_false, List.append_assoc, List.cons_append, hhead, htake, hdrop, hrest 16 4, hrest 12 4,
    hrest 8 4, List.take_append_drop]

theorem ofChars?_plain {cs : List Char} (h : cs.length = 32) :
    ofChars? cs = (ofDigits? cs).map ofNat := by
  simp [ofChars?, ofPlain?, h]

theorem ofChars?_grouped {cs : List Char} (h : cs.length = 32) (hplain : '-' ∉ cs) :
    ofChars? (grouped cs) = (ofDigits? cs).map ofNat := by
  simp [ofChars?, ofGrouped?, ofPlain?, filter_grouped hplain, length_grouped h, h]

end Uuid

structure RecordId where
  uuid : Uuid
  deriving DecidableEq, Repr, Inhabited

structure ClusterId where
  uuid : Uuid
  deriving DecidableEq, Repr, Inhabited

/-- A kind of identifiers that are written as text. -/
class Identifier (α : Type) where
  text : α → String
  /-- Reads an identifier in any of its spellings. -/
  ofText? : String → Option α

namespace RecordId

instance : LT RecordId := ⟨fun a b ↦ a.uuid < b.uuid⟩

instance : DecidableLT RecordId := fun a b ↦ inferInstanceAs (Decidable (a.uuid < b.uuid))

def text (id : RecordId) : String := id.uuid.text

def ofText? (s : String) : Option RecordId := (Uuid.ofText? s).map RecordId.mk

instance : Identifier RecordId := ⟨text, ofText?⟩

end RecordId

namespace ClusterId

instance : LT ClusterId := ⟨fun a b ↦ a.uuid < b.uuid⟩

instance : DecidableLT ClusterId := fun a b ↦ inferInstanceAs (Decidable (a.uuid < b.uuid))

def text (id : ClusterId) : String := id.uuid.text

def ofText? (s : String) : Option ClusterId := (Uuid.ofText? s).map ClusterId.mk

instance : Identifier ClusterId := ⟨text, ofText?⟩

end ClusterId

/-- Where fresh identifiers come from. -/
structure IdSupply where
  /-- The identifier that is handed out next, as a number. -/
  next : Nat
  deriving DecidableEq, Repr, Inhabited

namespace IdSupply

/-- Takes an identifier out of the supply. -/
def take (s : IdSupply) : Uuid × IdSupply := (Uuid.ofNat s.next, ⟨s.next + 1⟩)

end IdSupply

end RecordLinkage
