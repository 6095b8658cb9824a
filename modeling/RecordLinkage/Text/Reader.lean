/-!
# Reading from the front of a text

A reader takes characters from the front of a text and returns what it has read together with the
rest, or it does not fit. Where there are alternatives, the first one that fits is taken, and the
others start from the same place.

`many` repeats a reader as long as it fits. A reader that fits takes a character at least, so the
length of the text bounds the repetitions.
-/

namespace RecordLinkage

/-- Reads from the front of a text. -/
abbrev Reader := StateT (List Char) Option

namespace Reader

variable {α : Type}

/-- Reads a whole text. -/
def whole? (r : Reader α) (cs : List Char) : Option α :=
  match r cs with
  | some (a, []) => some a
  | _ => none

def word (expected : List Char) : Reader Unit := fun cs ↦
  if expected.isPrefixOf cs then some ((), cs.drop expected.length) else none

def char (c : Char) : Reader Unit := word [c]

/-- A character that passes a test. -/
def charThat (p : Char → Bool) : Reader Char := fun cs ↦
  match cs with
  | c :: rest => if p c then some (c, rest) else none
  | [] => none

/-- All characters at the front that pass a test. -/
def charsThat (p : Char → Bool) : Reader (List Char) := fun cs ↦
  some (cs.takeWhile p, cs.dropWhile p)

/-- One character at least that passes a test, and all that follow. -/
def someThat (p : Char → Bool) : Reader (List Char) := do
  let first ← charThat p
  let rest ← charsThat p
  return first :: rest

/-- So many characters, all of which pass a test. -/
def exactly (count : Nat) (p : Char → Bool) : Reader (List Char) := fun cs ↦
  if (cs.take count).length = count && (cs.take count).all p then
    some (cs.take count, cs.drop count)
  else none

private def manyFor (r : Reader α) : Nat → Reader (List α)
  | 0 => pure []
  | times + 1 =>
    (do let a ← r
        let rest ← manyFor r times
        return a :: rest) <|> pure []

/-- A reader, as often as it fits. -/
def many (r : Reader α) : Reader (List α) := do manyFor r ((← get).length + 1)

/-- A reader, once and then as often as a mark and the reader fit. -/
def separated (mark : Reader Unit) (r : Reader α) : Reader (List α) := do
  let first ← r
  let rest ← many (do mark; r)
  return first :: rest

/-- Nothing is left. -/
def atEnd : Reader Unit := fun cs ↦ if cs.isEmpty then some ((), []) else none

def hexValue? (c : Char) : Option Nat :=
  if c.isDigit then some (c.toNat - '0'.toNat)
  else if 'a' ≤ c && c ≤ 'f' then some (c.toNat - 'a'.toNat + 10)
  else if 'A' ≤ c && c ≤ 'F' then some (c.toNat - 'A'.toNat + 10)
  else none

/-- A number of so many hexadecimal digits. -/
def hexNumber (count : Nat) : Reader Nat := do
  let ds ← exactly count fun c ↦ (hexValue? c).isSome
  return ds.foldl (fun n c ↦ n * 16 + (hexValue? c).getD 0) 0

end Reader

end RecordLinkage
