import RecordLinkage.Json.Numeral

/-!
# Reading a stream of JSON values

A batch is a stream: JSON values one after the other, with or without blanks between them. The
`Scanner` reads it one character at a time. It keeps the arrays and objects that have been opened,
what it is in the middle of, and the values that are complete. Reading a text is then a fold over
its characters, and reading a concatenation is reading the one text and then, from where that ended,
the other.

## Where a value ends

Arrays, objects and strings end with their closing character. A number or a word ends only with the
next character, and at the top level not every character may follow it: after a blank, a bracket, a
brace, a comma, a colon, a quotation mark or the end of the input it is complete, after anything
else it is an error. A comma then is an error of its own, but the value before it counts.

## Failure

A character that fits nowhere makes the scanner fail for good. The values that were complete before
it stay. At the end of the input, a value that is not complete is a failure too.

## Depth

At most `depthLimit` arrays and objects may be open at a time.
-/

namespace RecordLinkage

/-- An array or object that has been opened and not yet closed. -/
inductive Scanner.Frame where
  /-- An array with its items so far, the newest first. -/
  | array (items : List Json)
  /-- An object with its fields so far and the key that was read last. -/
  | object (fields : List (String × Json)) (key : String)
  deriving Repr

/-- Where in a quoted string the scanner stands. -/
inductive Scanner.Quote where
  | plain
  /-- After a backslash. -/
  | escape
  /-- Within the four digits of a code unit, after the leading half of a pair if there is one. -/
  | code (leading : Option Nat) (digits : Nat) (value : Nat)
  /-- After the leading half of a pair. -/
  | halfway (leading : Nat)
  /-- After the backslash that has to follow the leading half of a pair. -/
  | halfwayEscape (leading : Nat)
  deriving DecidableEq, Repr

/-- What the scanner is in the middle of. -/
inductive Scanner.Mode where
  /-- A value has to follow; at the top level the input may also end. -/
  | value
  /-- An array was opened: a value or the closing bracket has to follow. -/
  | firstItem
  /-- An object was opened: a key or the closing brace has to follow. -/
  | firstKey
  | key
  /-- The colon after a key has to follow. -/
  | colon
  /-- A value inside an array or object is complete: a comma or the end of it has to follow. -/
  | after
  /-- Within a quoted string, which is a key or a value; its characters so far, newest first. -/
  | quote (isKey : Bool) (chars : List Char) (state : Quote)
  /-- Within a word that stands for a value. -/
  | word (rest : List Char) (value : Json)
  | numeral (n : Numeral)
  /-- After a word at the top level, before it is certain that it ends there. -/
  | settled (value : Json)
  | failed
  deriving Repr

/-- A reader of JSON values in the middle of its input. -/
structure Scanner where
  /-- The arrays and objects that are open, the innermost first. -/
  stack : List Scanner.Frame
  /-- What it is in the middle of. -/
  mode : Scanner.Mode
  /-- The complete values, the newest first. -/
  values : List Json
  deriving Repr

namespace Scanner

/-- At the beginning of a text. -/
def start : Scanner := ⟨[], .value, []⟩

/-- How many arrays and objects may be open at a time. -/
def depthLimit : Nat := 127

/-- A blank between values. -/
def isBlank (c : Char) : Bool := c = ' ' || c = '\n' || c = '\t' || c = '\r'

/-- The characters that may follow a number or a word at the top level. -/
def isDelimiter (c : Char) : Bool :=
  isBlank c || c = '"' || c = '[' || c = ']' || c = '\x7b' || c = '\x7d' || c = ',' || c = ':'

/-- After an error. -/
def fail (s : Scanner) : Scanner := { s with mode := .failed }

/-- In the middle of something. -/
def enter (s : Scanner) (mode : Mode) : Scanner := { s with mode := mode }

/-- A value is complete: it goes to the array or object around it, or is a value of the stream. -/
def complete (s : Scanner) (v : Json) : Scanner :=
  match s.stack with
  | [] => { s with mode := .value, values := v :: s.values }
  | .array items :: rest => { s with stack := .array (v :: items) :: rest, mode := .after }
  | .object fields key :: rest =>
    { s with stack := .object (Sorted.put key v fields) key :: rest, mode := .after }

/-- An array or object is opened, unless too many are open. -/
def openFrame (s : Scanner) (frame : Frame) (mode : Mode) : Scanner :=
  if s.stack.length < depthLimit then { s with stack := frame :: s.stack, mode := mode } else s.fail

/-- The innermost array is complete, if it is an array. -/
def closeArray (s : Scanner) : Scanner :=
  match s.stack with
  | .array items :: rest => { s with stack := rest }.complete (.array items.reverse)
  | _ => s.fail

/-- The innermost object is complete, if it is an object. -/
def closeObject (s : Scanner) : Scanner :=
  match s.stack with
  | .object fields _ :: rest => { s with stack := rest }.complete (.object fields)
  | _ => s.fail

/-- The first character of a value. -/
def beginValue (s : Scanner) (c : Char) : Scanner :=
  match c with
  | '"' => s.enter (.quote false [] .plain)
  | '[' => s.openFrame (.array []) .firstItem
  | '\x7b' => s.openFrame (.object [] "") .firstKey
  | 't' => s.enter (.word ['r', 'u', 'e'] (.bool true))
  | 'f' => s.enter (.word ['a', 'l', 's', 'e'] (.bool false))
  | 'n' => s.enter (.word ['u', 'l', 'l'] .null)
  | c =>
    match Numeral.first? c with
    | some n => s.enter (.numeral n)
    | none => s.fail

/-- A character between values, keys and marks. -/
def stepBetween (s : Scanner) (c : Char) : Scanner :=
  if isBlank c then s
  else
    match s.mode with
    | .value => s.beginValue c
    | .firstItem => if c = ']' then s.closeArray else s.beginValue c
    | .firstKey =>
      if c = '\x7d' then s.closeObject
      else if c = '"' then s.enter (.quote true [] .plain)
      else s.fail
    | .key => if c = '"' then s.enter (.quote true [] .plain) else s.fail
    | .colon => if c = ':' then s.enter .value else s.fail
    | .after =>
      match c, s.stack with
      | ',', .array _ :: _ => s.enter .value
      | ',', .object _ _ :: _ => s.enter .key
      | ']', _ => s.closeArray
      | '\x7d', _ => s.closeObject
      | _, _ => s.fail
    | _ => s.fail

/-! ## Quoted strings -/

/-- The value of a digit of a code unit. -/
def hexValue? (c : Char) : Option Nat :=
  if c.isDigit then some (c.toNat - '0'.toNat)
  else if 'a' ≤ c && c ≤ 'f' then some (c.toNat - 'a'.toNat + 10)
  else if 'A' ≤ c && c ≤ 'F' then some (c.toNat - 'A'.toNat + 10)
  else none

/-- The character that is meant by one after a backslash. -/
def escaped? (c : Char) : Option Char :=
  match c with
  | '"' => some '"'
  | '\\' => some '\\'
  | '/' => some '/'
  | 'b' => some (Char.ofNat 8)
  | 'f' => some (Char.ofNat 12)
  | 'n' => some '\n'
  | 'r' => some '\r'
  | 't' => some '\t'
  | _ => none

private def isLeading (n : Nat) : Bool := 0xD800 ≤ n && n ≤ 0xDBFF

private def isTrailing (n : Nat) : Bool := 0xDC00 ≤ n && n ≤ 0xDFFF

private def joined (leading trailing : Nat) : Char :=
  Char.ofNat (0x10000 + (leading - 0xD800) * 0x400 + (trailing - 0xDC00))

/-- The closing quotation mark: a value is complete, or a key. -/
def endQuote (s : Scanner) (isKey : Bool) (chars : List Char) : Scanner :=
  let text := String.ofList chars.reverse
  if !isKey then s.complete (.string text)
  else
    match s.stack with
    | .object fields _ :: rest => { s with stack := .object fields text :: rest, mode := .colon }
    | _ => s.fail

/-- A code unit is complete. -/
def endCode (s : Scanner) (isKey : Bool) (chars : List Char) (leading : Option Nat)
    (n : Nat) : Scanner :=
  match leading with
  | some h =>
    if isTrailing n then s.enter (.quote isKey (joined h n :: chars) .plain) else s.fail
  | none =>
    if isLeading n then s.enter (.quote isKey chars (.halfway n))
    else if isTrailing n then s.fail
    else s.enter (.quote isKey (Char.ofNat n :: chars) .plain)

/-- A character within a quoted string. -/
def stepQuote (s : Scanner) (isKey : Bool) (chars : List Char) (state : Quote) (c : Char) :
    Scanner :=
  match state with
  | .plain =>
    if c = '"' then s.endQuote isKey chars
    else if c = '\\' then s.enter (.quote isKey chars .escape)
    else if c.toNat < 0x20 then s.fail
    else s.enter (.quote isKey (c :: chars) .plain)
  | .escape =>
    if c = 'u' then s.enter (.quote isKey chars (.code none 0 0))
    else
      match escaped? c with
      | some e => s.enter (.quote isKey (e :: chars) .plain)
      | none => s.fail
  | .code leading digits value =>
    match hexValue? c with
    | none => s.fail
    | some d =>
      let value := value * 16 + d
      if digits < 3 then s.enter (.quote isKey chars (.code leading (digits + 1) value))
      else s.endCode isKey chars leading value
  | .halfway leading =>
    if c = '\\' then s.enter (.quote isKey chars (.halfwayEscape leading)) else s.fail
  | .halfwayEscape leading =>
    if c = 'u' then s.enter (.quote isKey chars (.code (some leading) 0 0)) else s.fail

/-! ## One character -/

/-- A number or word has ended before a character: it is complete unless the character glues to
it. -/
def endScalar (s : Scanner) (v : Json) (c : Char) : Scanner :=
  if s.stack.isEmpty && !isDelimiter c then s.fail else (s.complete v).stepBetween c

/-- A number has ended before a character, if it may end there. -/
def endNumeral (s : Scanner) (n : Numeral) (c : Char) : Scanner :=
  match n.value? with
  | some v => s.endScalar (.number v) c
  | none => s.fail

/-- The last character of a word. -/
def endWord (s : Scanner) (v : Json) : Scanner :=
  if s.stack.isEmpty then s.enter (.settled v) else s.complete v

/-- Reads one character. -/
def step (s : Scanner) (c : Char) : Scanner :=
  match s.mode with
  | .failed => s
  | .quote isKey chars state => s.stepQuote isKey chars state c
  | .word [] v => s.endScalar v c
  | .word (expected :: rest) v =>
    if c = expected then
      match rest with
      | [] => s.endWord v
      | _ => s.enter (.word rest v)
    else s.fail
  | .numeral n =>
    match n.push c with
    | .more n => s.enter (.numeral n)
    | .ended => s.endNumeral n c
    | .broken => s.fail
  | .settled v => s.endScalar v c
  | _ => s.stepBetween c

def run (s : Scanner) (cs : List Char) : Scanner := cs.foldl step s

@[simp] theorem run_nil (s : Scanner) : s.run [] = s := rfl

@[simp] theorem run_cons (s : Scanner) (c : Char) (cs : List Char) :
    s.run (c :: cs) = (s.step c).run cs := rfl

/-- Reading a concatenation is reading one part and then the other. -/
theorem run_append (s : Scanner) (a b : List Char) : s.run (a ++ b) = (s.run a).run b :=
  List.foldl_append

def atEnd (s : Scanner) : Scanner :=
  match s.stack, s.mode with
  | [], .value => s
  | [], .settled v => s.complete v
  | [], .numeral n =>
    match n.value? with
    | some v => s.complete (.number v)
    | none => s.fail
  | _, _ => s.fail

/-- Whether an error was met. -/
def hasFailed (s : Scanner) : Bool :=
  match s.mode with
  | .failed => true
  | _ => false

end Scanner

/-- The values of a JSON text, and whether the text is well formed to its end. -/
structure JsonStream where
  /-- The values before the first error, in order. -/
  values : List Json
  /-- Whether there is no error. -/
  isComplete : Bool
  deriving Repr

namespace Json

/-- Reads a stream of values. -/
def readStream (cs : List Char) : JsonStream :=
  let s := (Scanner.start.run cs).atEnd
  ⟨s.values.reverse, !s.hasFailed⟩

/-- Reads a text that is one value, with blanks around it at most. -/
def parse? (text : String) : Option Json :=
  match readStream text.toList with
  | ⟨[v], true⟩ => some v
  | _ => none

end Json

end RecordLinkage
