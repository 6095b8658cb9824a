import RecordLinkage.Number.Power

/-!
# Text from bytes

Batches of records arrive as bytes. They are read as UTF-8, one character at a time, and reading
stops at the first byte sequence that is not well formed.

## Ill-formed input

A reader downstream has to fail at exactly the place where the bytes stop being text, and not
before: everything complete up to there still counts. The ill-formed tail is therefore replaced by
the single character `malformed`, a control character that no text format of this library admits
anywhere, inside a quoted string or outside. A reader that works on characters then fails by itself
at the right place, and needs no second notion of an end of input.
-/

namespace RecordLinkage.Text

/-- What stands for an ill-formed sequence and all that follows it. -/
def malformed : Char := Char.ofNat 0

/-- A byte that continues a character. -/
def isContinuation (b : UInt8) : Bool := 0x80 ≤ b && b ≤ 0xBF

private def payload (b : UInt8) (width : Nat) : Nat := b.toNat % Nat.pow 2 width

private def pair (a b : UInt8) : Char :=
  Char.ofNat (payload a 5 * 2 ^ 6 + payload b 6)

private def triple (a b c : UInt8) : Char :=
  Char.ofNat (payload a 4 * 2 ^ 12 + payload b 6 * 2 ^ 6 + payload c 6)

private def quadruple (a b c d : UInt8) : Char :=
  Char.ofNat (payload a 3 * 2 ^ 18 + payload b 6 * 2 ^ 12 + payload c 6 * 2 ^ 6 + payload d 6)

/-- The second bytes a three-byte character may have: overlong forms and surrogates are out. -/
private def secondOfTriple (a b : UInt8) : Bool :=
  if a = 0xE0 then 0xA0 ≤ b && b ≤ 0xBF
  else if a = 0xED then 0x80 ≤ b && b ≤ 0x9F
  else isContinuation b

/-- The second bytes a four-byte character may have: overlong forms and all past the last code
point are out. -/
private def secondOfQuadruple (a b : UInt8) : Bool :=
  if a = 0xF0 then 0x90 ≤ b && b ≤ 0xBF
  else if a = 0xF4 then 0x80 ≤ b && b ≤ 0x8F
  else isContinuation b

/-- The characters of a byte sequence, ended by `malformed` where it stops being UTF-8. -/
def decodeUtf8 : List UInt8 → List Char
  | [] => []
  | a :: rest =>
    if a < 0x80 then Char.ofNat a.toNat :: decodeUtf8 rest
    else if 0xC2 ≤ a && a ≤ 0xDF then
      match rest with
      | b :: rest' => if isContinuation b then pair a b :: decodeUtf8 rest' else [malformed]
      | [] => [malformed]
    else if 0xE0 ≤ a && a ≤ 0xEF then
      match rest with
      | b :: c :: rest' =>
        if secondOfTriple a b && isContinuation c then triple a b c :: decodeUtf8 rest'
        else [malformed]
      | _ => [malformed]
    else if 0xF0 ≤ a && a ≤ 0xF4 then
      match rest with
      | b :: c :: d :: rest' =>
        if secondOfQuadruple a b && isContinuation c && isContinuation d then
          quadruple a b c d :: decodeUtf8 rest'
        else [malformed]
      | _ => [malformed]
    else [malformed]

end RecordLinkage.Text
