import RecordLinkage.Number.Double
import RecordLinkage.Number.Integer
import RecordLinkage.Text.Reader
import RecordLinkage.Time.Calendar
import RecordLinkage.Toml.Value

/-!
# Reading TOML

A document is a sequence of lines: a value under a key, a header, or nothing, each with a comment at
most. Keys that stand before the first header belong to the document itself, the others to the table
of the header in front of them.

## Values

Arrays and tables in braces nest, down to a limited depth, and the readers of values count that
depth down. Line ends are allowed inside arrays, but not inside braces.
-/

namespace RecordLinkage.Toml

open Number (Double)
open Time (Day)

namespace Grammar

open Reader

/-! ## Blanks and comments -/

/-- A blank within a line. -/
def isBlank (c : Char) : Bool := c = ' ' || c = '\t'

/-- A character that may stand in text as it is. -/
def isText (c : Char) : Bool := c = '\t' || (0x20 ≤ c.toNat && c.toNat ≠ 0x7F)

def blanks : Reader Unit := do let _ ← charsThat isBlank

def newline : Reader Unit := char '\n' <|> word ['\r', '\n']

def comment : Reader Unit := do
  char '#'
  let _ ← charsThat isText

/-- Blanks, comments and line ends. -/
def gap : Reader Unit := do
  let _ ← many ((do let _ ← charThat isBlank) <|> newline <|> (do comment; newline))

/-! ## Strings -/

private def isScalar (n : Nat) : Bool := n < 0xD800 || (0xDFFF < n && n < 0x110000)

private def codePoint (count : Nat) : Reader Char := do
  let n ← hexNumber count
  if isScalar n then return Char.ofNat n else failure

private def escaped : Reader Char := do
  char '\\'
  let c ← charThat fun _ ↦ true
  match c with
  | 'b' => return Char.ofNat 8
  | 't' => return '\t'
  | 'n' => return '\n'
  | 'f' => return Char.ofNat 12
  | 'r' => return '\r'
  | '"' => return '"'
  | '\\' => return '\\'
  | 'u' => codePoint 4
  | 'U' => codePoint 8
  | _ => failure

private def quotes : List Char := ['"', '"', '"']

private def apostrophes : List Char := ['\'', '\'', '\'']

/-- A string with escapes, on one line. -/
def basicString : Reader String := do
  char '"'
  let chars ← many (charThat (fun c ↦ isText c && c ≠ '"' && c ≠ '\\') <|> escaped)
  char '"'
  return String.ofList chars

/-- A string without escapes, on one line. -/
def literalString : Reader String := do
  char '\''
  let chars ← charsThat fun c ↦ isText c && c ≠ '\''
  char '\''
  return String.ofList chars

private def lineBreak : Reader (List Char) := do newline; return ['\n']

private def continuation : Reader (List Char) := do
  char '\\'; blanks; newline
  let _ ← many ((do let _ ← charThat isBlank) <|> newline)
  return []

/-- One or two marks that do not end a string of several lines. -/
private def innerMarks (mark : Char) : Reader (List Char) := fun cs ↦
  let marks := cs.takeWhile (· = mark)
  let rest := cs.dropWhile (· = mark)
  if marks.isEmpty || 3 ≤ marks.length then none else some (marks, rest)

/-- The marks that end a string of several lines; up to two of its own may stand before them. -/
private def lastMarks (mark : Char) : Reader (List Char) := fun cs ↦
  let marks := (cs.takeWhile (· = mark)).take 5
  if marks.length < 3 then none else some (marks.drop 3, cs.drop marks.length)

private def longString (mark : Char) (part : Reader (List Char)) : Reader String := do
  word [mark, mark, mark]
  let _ ← optional newline
  let parts ← many (part <|> lineBreak <|> innerMarks mark)
  let last ← lastMarks mark
  return String.ofList (parts.flatten ++ last)

/-- A string with escapes, on several lines. -/
def longBasicString : Reader String := longString '"' (
  (do let c ← charThat fun c ↦ isText c && c ≠ '"' && c ≠ '\\'; return [c]) <|>
  (do let c ← escaped; return [c]) <|> continuation)

/-- A string without escapes, on several lines. -/
def longLiteralString : Reader String := longString '\'' (
  do let c ← charThat fun c ↦ isText c && c ≠ '\''; return [c])

def string : Reader String :=
  longBasicString <|> basicString <|> longLiteralString <|> literalString

/-! ## Keys -/

private def isBare (c : Char) : Bool := c.isAlphanum || c = '_' || c = '-'

/-- One part of a key. -/
def simpleKey : Reader String :=
  basicString <|> literalString <|> (do let cs ← someThat isBare; return String.ofList cs)

/-- How many parts a key may have. -/
def depthLimit : Nat := 80

/-- A key, part by part. -/
def key : Reader (List String) := do
  let parts ← separated (char '.') (do
    blanks
    let part ← simpleKey
    blanks
    return part)
  if parts.length < depthLimit then return parts else failure

/-! ## Numbers -/

private def isOctal (c : Char) : Bool := '0' ≤ c && c ≤ '7'

private def isBinary (c : Char) : Bool := c = '0' || c = '1'

private def isHex (c : Char) : Bool := (hexValue? c).isSome

/-- Digits with single underscores between them. -/
def digits (p : Char → Bool) : Reader (List Char) := do
  let parts ← separated (char '_') (someThat p)
  return parts.flatten

private def ofBase (base : Nat) (ds : List Char) : Nat :=
  ds.foldl (fun n c ↦ n * base + (hexValue? c).getD 0) 0

private def inRange (i : Int) : Reader Toml :=
  if Number.leastSigned ≤ i && i ≤ Number.greatestSigned then return .integer i else failure

private def based (mark : Char) (base : Nat) (p : Char → Bool) : Reader Toml := do
  word ['0', mark]
  let ds ← digits p
  inRange (ofBase base ds)

private def sign : Reader Bool := do
  let s ← optional (charThat fun c ↦ c = '+' || c = '-')
  return s = some '-'

/-- The whole part of a decimal number, without leading zeros. -/
private def wholePart : Reader (List Char) := do
  let ds ← digits Char.isDigit
  if ds.head? = some '0' && ds.length ≠ 1 then failure else return ds

/-- A decimal integer. -/
def decimalInteger : Reader Toml := do
  let negative ← sign
  let n := ofBase 10 (← wholePart)
  inRange (if negative then -(n : Int) else n)

private def exponent : Reader Int := do
  let _ ← charThat fun c ↦ c = 'e' || c = 'E'
  let negative ← sign
  let n := ofBase 10 (← digits Char.isDigit)
  return if negative then -(n : Int) else n

private def fraction : Reader (List Char) := do char '.'; digits Char.isDigit

/-- Whether a decimal number is too large to be finite. -/
private def isInfinite (ds : List Char) (power : Int) : Bool :=
  let n := ofBase 10 ds
  let size : Int := (ds.dropWhile (· = '0')).length + power
  if n = 0 || size < 300 then false
  else if 320 < size then true
  else (Double.ofRatio (n * Nat.pow 10 power.toNat) (Nat.pow 10 (-power).toNat)).isNone

/-- A number with a fraction or an exponent. -/
def decimalFloat : Reader Toml := do
  let negative ← sign
  let front ← wholePart
  let back ← optional fraction
  let power ← optional exponent
  if back.isNone && power.isNone then failure
  else
    let back := back.getD []
    if !negative && isInfinite (front ++ back) (power.getD 0 - back.length) then failure
    else return .float

private def specialFloat : Reader Toml := do
  let _ ← sign
  word ['i', 'n', 'f'] <|> word ['n', 'a', 'n']
  return .float

/-! ## Dates -/

private def number (width : Nat) : Reader Nat := do
  return ofBase 10 (← exactly width Char.isDigit)

private def numberUpTo (limit : Nat) : Reader Unit := do
  if (← number 2) ≤ limit then pure () else failure

private def fullDate : Reader Unit := do
  let year ← number 4
  char '-'
  let month ← number 2
  char '-'
  let day ← number 2
  if (Day.mk year month day).isValid then pure () else failure

private def time : Reader Unit := do
  numberUpTo 23; char ':'; numberUpTo 59; char ':'; numberUpTo 60
  let _ ← optional (do char '.'; someThat Char.isDigit)

private def offset : Reader Unit :=
  (do let _ ← charThat fun c ↦ c = 'Z' || c = 'z') <|>
  (do let _ ← charThat fun c ↦ c = '+' || c = '-'
      numberUpTo 23; char ':'; numberUpTo 59)

private def timeOfDate : Reader Unit := do
  let _ ← charThat fun c ↦ c = 'T' || c = 't' || c = ' '
  time
  let _ ← optional offset

/-- A date, a time, or both. -/
def date : Reader Toml :=
  (do fullDate; let _ ← optional timeOfDate; return .date) <|> (do time; return .date)

/-! ## Values -/

/-- A value that holds no other one. -/
def scalar : Reader Toml :=
  (do let s ← string; return .string s) <|>
  (do word ['t', 'r', 'u', 'e']; return .bool true) <|>
  (do word ['f', 'a', 'l', 's', 'e']; return .bool false) <|>
  date <|> decimalFloat <|> based 'x' 16 isHex <|> based 'o' 8 isOctal <|> based 'b' 2 isBinary <|>
  decimalInteger <|> specialFloat

/-- The items of an array; a comma may follow the last one. -/
def items (value : Reader Toml) : Reader (List Toml) := do
  let items ← optional (separated (do gap; char ','; gap) value)
  match items with
  | some items =>
    let _ ← optional (do gap; char ',')
    return items
  | none => return []

def field (value : Reader Toml) : Reader (List String × Toml) := do
  let k ← key
  char '='; blanks
  let v ← value
  return (k, v)

/-- Adds a value to the fields of a table. -/
def addField (form : Form) (fields : List (String × Toml)) (entry : List String × Toml) :
    Option (List (String × Toml)) :=
  match entry.1.getLast? with
  | some last => addValue entry.1.dropLast last entry.2 form fields
  | none => none

private def tableOf (entries : List (List String × Toml)) : Reader Toml :=
  match entries.foldlM (addField .closed) [] with
  | some fields => return .table .closed fields
  | none => failure

/-- The fields of a table in braces. -/
def braced (value : Reader Toml) : Reader (List (List String × Toml)) := do
  let entries ← optional (separated (do blanks; char ','; blanks) (field value))
  return entries.getD []

/-- A value, with so many arrays and braces inside each other at most. -/
def value : Nat → Reader Toml
  | 0 => failure
  | depth + 1 =>
    (do char '['; gap
        let items ← items (value depth)
        gap; char ']'
        return .array items) <|>
    (do char '\x7b'; blanks
        let entries ← braced (value depth)
        blanks; char '\x7d'
        tableOf entries) <|>
    scalar

/-! ## Lines -/

inductive Line where
  /-- Nothing but a comment at most. -/
  | blank
  | field (key : List String) (value : Toml)
  | header (key : List String)
  /-- A header that several tables share. -/
  | sharedHeader (key : List String)

/-- A line, without its end. -/
def line : Reader Line := do
  blanks
  (do word ['[', '[']
      let k ← key
      word [']', ']']
      return .sharedHeader k) <|>
  (do char '['
      let k ← key
      char ']'
      return .header k) <|>
  (do let (k, v) ← field (value depthLimit)
      return .field k v) <|>
  pure .blank

private def lastLine : Reader Line := do
  let l ← line
  blanks
  let _ ← optional comment
  atEnd
  return l

private def innerLine : Reader Line := do
  let l ← line
  blanks
  let _ ← optional comment
  newline
  return l

def lines : Reader (List Line) := do
  let front ← many innerLine
  let last ← lastLine
  return front ++ [last]

end Grammar

/-! ## Documents -/

/-- A document in the middle of its lines. -/
structure Draft where
  fields : List (String × Toml)
  /-- The header that the next values belong to. -/
  header : List String

namespace Draft

private def openWith (draft : Draft) (key : List String)
    (change : String → Form → List (String × Toml) → Option (List (String × Toml))) :
    Option Draft := do
  let last ← key.getLast?
  let fields ← changeAt .header (change last) key.dropLast .header draft.fields
  some ⟨fields, key⟩

def add (draft : Draft) : Grammar.Line → Option Draft
  | .blank => some draft
  | .header key => draft.openWith key openTable
  | .sharedHeader key => draft.openWith key openTables
  | .field key value => do
    let fields ← changeAt .header (fun form fields ↦ Grammar.addField form fields (key, value))
      draft.header .header draft.fields
    some { draft with fields }

end Draft

private def withoutMark : List Char → List Char
  | [] => []
  | c :: rest => if c.toNat = 0xFEFF then rest else c :: rest

/-- The fields of a document. -/
def read? (text : String) : Option (List (String × Toml)) := do
  let lines ← Grammar.lines.whole? (withoutMark text.toList)
  let draft ← lines.foldlM Draft.add ⟨[], []⟩
  some draft.fields

end RecordLinkage.Toml
