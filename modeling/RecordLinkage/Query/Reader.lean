import RecordLinkage.Json.Numeral
import RecordLinkage.Number.Integer
import RecordLinkage.Query.Basic
import RecordLinkage.Text.Reader

/-!
# Reading queries

The notation of RFC 9535, by recursive descent.

Blanks are spaces, tabs and line ends. They may stand around segments, selectors and operators, but
not in front of a query and not directly after its `$` if nothing else follows.

## Well-typed functions

Three functions are known. `length` takes a value: a literal, a query that names at most one place,
or the result of a function. `count` and `value` take a query. All three give values, so they can be
compared but are no tests by themselves.

## Fuel

The grammar is recursive: tests stand inside queries and queries inside tests. Each reader of the
recursive part takes fuel and passes less of it on. A nested part is at least one character shorter
than what it is nested in, and between a part and one nested in it there are at most a dozen
readers, so `fuelFor` suffices for every text.
-/

namespace RecordLinkage.Query

namespace Grammar

open Reader

def isBlank (c : Char) : Bool := c = ' ' || c = '\t' || c = '\n' || c = '\r'

def blanks : Reader Unit := do let _ ← charsThat isBlank

/-! ## Numbers -/

private def digits : Reader (List Char) := do
  let first ← charThat Char.isDigit
  if first = '0' then return ['0']
  else
    let rest ← charsThat Char.isDigit
    return first :: rest

/-- The greatest place that may be named. -/
def placeLimit : Nat := 2 ^ 53 - 1

/-- A place of an array: no leading zeros, no minus zero, and exact as a double. -/
def integer : Reader Int := do
  let minus ← optional (char '-')
  let ds ← digits
  let n := (Number.ofDigits? ds).getD 0
  if placeLimit < n then failure
  else if minus.isNone then return (n : Int)
  else if n = 0 then failure
  else return -(n : Int)

private def numeralFrom (n : Numeral) : List Char → Option (JsonNumber × List Char)
  | [] => n.value?.map fun v ↦ (v, [])
  | c :: rest =>
    match n.push c with
    | .more n => numeralFrom n rest
    | .ended => n.value?.map fun v ↦ (v, c :: rest)
    | .broken => none

/-- A number as JSON writes it. -/
def numeral : Reader JsonNumber := fun cs ↦
  match cs with
  | c :: rest => (Numeral.first? c).bind fun n ↦ numeralFrom n rest
  | [] => none

/-! ## Names -/

private def isNameFirst (c : Char) : Bool := c.isAlpha || c = '_' || 0x80 ≤ c.toNat

private def isNameChar (c : Char) : Bool := isNameFirst c || c.isDigit

/-- A name without quotation marks. -/
def bareName : Reader String := do
  let first ← charThat isNameFirst
  let rest ← charsThat isNameChar
  return String.ofList (first :: rest)

private def codePoint : Reader Char := do
  let n ← hexNumber 4
  if n < 0xD800 || 0xDFFF < n then return Char.ofNat n
  else if 0xDBFF < n then failure
  else
    word ['\\', 'u']
    let low ← hexNumber 4
    if low < 0xDC00 || 0xDFFF < low then failure
    else return Char.ofNat (0x10000 + (n - 0xD800) * 0x400 + (low - 0xDC00))

private def escaped (mark : Char) : Reader Char := do
  let c ← charThat fun _ ↦ true
  match c with
  | 'b' => return Char.ofNat 8
  | 'f' => return Char.ofNat 12
  | 'n' => return '\n'
  | 'r' => return '\r'
  | 't' => return '\t'
  | '/' => return '/'
  | '\\' => return '\\'
  | 'u' => codePoint
  | c => if c = mark then return c else failure

private def quotedChar (mark : Char) : Reader Char := do
  let c ← charThat fun c ↦ 0x20 ≤ c.toNat && c ≠ mark
  if c = '\\' then escaped mark else return c

/-- A string between two quotation marks of one kind. -/
def quoted : Reader String := do
  let mark ← charThat fun c ↦ c = '"' || c = '\''
  let chars ← many (quotedChar mark)
  char mark
  return String.ofList chars

/-! ## Parts without recursion -/

/-- A null, a truth value, a number or a string. -/
def literal : Reader Json :=
  (do word ['n', 'u', 'l', 'l']; return .null) <|>
  (do word ['t', 'r', 'u', 'e']; return .bool true) <|>
  (do word ['f', 'a', 'l', 's', 'e']; return .bool false) <|>
  (do let n ← numeral; return .number n) <|>
  (do let s ← quoted; return .string s)

def relation : Reader Relation :=
  (do word ['=', '=']; return .equal) <|>
  (do word ['!', '=']; return .notEqual) <|>
  (do word ['<', '=']; return .lessOrEqual) <|>
  (do word ['>', '=']; return .greaterOrEqual) <|>
  (do char '<'; return .less) <|>
  (do char '>'; return .greater)

/-- Where a query inside a test starts. -/
def origin : Reader Origin :=
  (do char '$'; return .root) <|> (do char '@'; return .current)

/-- A slice, with one colon or two. -/
def slice : Reader Selector := do
  let first ← optional integer
  blanks; char ':'; blanks
  let last ← optional integer
  let step ← optional (do blanks; char ':'; optional (do blanks; integer))
  return .slice first last ((step.bind id).getD 1)

/-- A name or place in brackets, without blanks, or a name after a point. -/
def singularSegment : Reader Segment :=
  (do char '.'; let key ← bareName; return .child [.name key]) <|>
  (do char '['; let key ← quoted; char ']'; return .child [.name key]) <|>
  (do char '['; let i ← integer; char ']'; return .child [.index i])

/-- A query inside a test that names at most one place. -/
def singularPath : Reader Path := do
  let o ← origin
  let segments ← many (do blanks; singularSegment)
  return .mk o segments

private def isFunctionChar (c : Char) : Bool := c.isLower || c.isDigit || c = '_'

def functionName : Reader String := do
  let first ← charThat Char.isLower
  let rest ← charsThat isFunctionChar
  return String.ofList (first :: rest)

/-- What a function is given. -/
inductive Argument where
  | path (p : Path)
  /-- Something with a value that is not a query. -/
  | operand (a : Operand)

/-- The result of a function, if it can be given that. -/
def functionOf? (name : String) (argument : Argument) : Option Operand :=
  match name, argument with
  | "length", .operand a => some (.length a)
  | "length", .path p => if p.isSingular then some (.length (.single p)) else none
  | "count", .path p => some (.count p)
  | "value", .path p => some (.single p)
  | _, _ => none

/-! ## The recursive part -/

private def segmentsOf (segment : Reader Segment) : Reader (List Segment) :=
  many (do
    blanks
    let s ← segment
    blanks
    return s)

private def mark (r : Reader Unit) : Reader Unit := do blanks; r; blanks

private def disjunction : List Test → Reader Test
  | first :: rest => return rest.foldl .either first
  | [] => failure

private def conjunction : List Test → Reader Test
  | first :: rest => return rest.foldl .both first
  | [] => failure

mutual

def selector : Nat → Reader Selector
  | 0 => failure
  | fuel + 1 =>
    (do char '*'; return .wildcard) <|> slice <|>
    (do let i ← integer; return .index i) <|>
    (do let key ← quoted; return .name key) <|>
    (do char '?'; blanks; let t ← test fuel; return .filter t)

/-- Selectors in brackets. -/
def bracketed : Nat → Reader (List Selector)
  | 0 => failure
  | fuel + 1 => do
    char '['; blanks
    let selectors ← separated (mark (char ',')) (selector fuel)
    blanks; char ']'
    return selectors

def segment : Nat → Reader Segment
  | 0 => failure
  | fuel + 1 =>
    (do word ['.', '.']; let ss ← bracketed fuel; return .descendant ss) <|>
    (do word ['.', '.', '*']; return .descendant [.wildcard]) <|>
    (do word ['.', '.']; let key ← bareName; return .descendant [.name key]) <|>
    (do let ss ← bracketed fuel; return .child ss) <|>
    (do word ['.', '*']; return .child [.wildcard]) <|>
    (do char '.'; let key ← bareName; return .child [.name key])

def path : Nat → Reader Path
  | 0 => failure
  | fuel + 1 => do
    let o ← origin
    let segments ← segmentsOf (segment fuel)
    return .mk o segments

/-- What a function is given. -/
def argument : Nat → Reader Argument
  | 0 => failure
  | fuel + 1 =>
    (do let v ← literal; return .operand (.literal v)) <|>
    (do let p ← path fuel; return .path p) <|>
    (do let a ← call fuel; return .operand a)

def call : Nat → Reader Operand
  | 0 => failure
  | fuel + 1 => do
    let name ← functionName
    char '('; blanks
    let a ← argument fuel
    blanks; char ')'
    match functionOf? name a with
    | some result => return result
    | none => failure

def operand : Nat → Reader Operand
  | 0 => failure
  | fuel + 1 =>
    (do let v ← literal; return .literal v) <|>
    (do let p ← singularPath; return .single p) <|>
    call fuel

/-- A test in parentheses. -/
def enclosed : Nat → Reader Test
  | 0 => failure
  | fuel + 1 => do
    char '('; blanks
    let t ← test fuel
    blanks; char ')'
    return t

/-- A test without `&&` and `||` outside of parentheses. -/
def plainTest : Nat → Reader Test
  | 0 => failure
  | fuel + 1 =>
    (do char '!'; blanks; let t ← enclosed fuel; return .negation t) <|>
    enclosed fuel <|>
    (do let a ← operand fuel
        blanks
        let r ← relation
        blanks
        let b ← operand fuel
        return .comparison r a b) <|>
    (do char '!'; blanks; let p ← path fuel; return .negation (.presence p)) <|>
    (do let p ← path fuel; return .presence p)

/-- A test without `||` outside of parentheses. -/
def conjunctiveTest : Nat → Reader Test
  | 0 => failure
  | fuel + 1 => do
    let tests ← separated (mark (word ['&', '&'])) (plainTest fuel)
    conjunction tests

def test : Nat → Reader Test
  | 0 => failure
  | fuel + 1 => do
    let tests ← separated (mark (word ['|', '|'])) (conjunctiveTest fuel)
    disjunction tests

end

end Grammar

/-- Fuel that suffices for a text of that length. -/
def fuelFor (length : Nat) : Nat := 12 * (length + 1)

/-- A query by itself. -/
def fullPath (fuel : Nat) : Reader Path := do
  Reader.char '$'
  let segments ← Grammar.segmentsOf (Grammar.segment fuel)
  return .mk .root segments

/-- Reads a query that takes up a whole text. -/
def Path.ofText? (text : String) : Option Path :=
  (fullPath (fuelFor text.length)).whole? text.toList

end RecordLinkage.Query
