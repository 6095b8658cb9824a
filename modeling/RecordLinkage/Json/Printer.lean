import RecordLinkage.Json.Value

/-!
# Writing JSON values

Two layouts: the compact one in which values are stored, and the indented one in which the command
line shows them. Both escape in a string only what has to be escaped: the quotation mark, the
backslash and the control characters.
-/

namespace RecordLinkage.Json

private def hex (n : Nat) : Char :=
  if n < 10 then Char.ofNat ('0'.toNat + n) else Char.ofNat ('a'.toNat + (n - 10))

/-- A character of a quoted string. -/
def escapedChar (c : Char) : List Char :=
  if c = '"' then ['\\', '"']
  else if c = '\\' then ['\\', '\\']
  else if c = '\n' then ['\\', 'n']
  else if c = '\r' then ['\\', 'r']
  else if c = '\t' then ['\\', 't']
  else if c.toNat = 8 then ['\\', 'b']
  else if c.toNat = 12 then ['\\', 'f']
  else if c.toNat < 0x20 then ['\\', 'u', '0', '0', hex (c.toNat / 16), hex (c.toNat % 16)]
  else [c]

def quotedText (s : String) : List Char := '"' :: s.toList.flatMap escapedChar ++ ['"']

/-! ## Compact -/

mutual

/-- The written form of a value. -/
def chars : Json → List Char
  | null => ['n', 'u', 'l', 'l']
  | bool true => ['t', 'r', 'u', 'e']
  | bool false => ['f', 'a', 'l', 's', 'e']
  | number n => n.text
  | string s => quotedText s
  | array [] => ['[', ']']
  | array (v :: rest) => '[' :: chars v ++ itemChars rest ++ [']']
  | object [] => ['\x7b', '\x7d']
  | object ((k, v) :: rest) =>
    '\x7b' :: quotedText k ++ ':' :: chars v ++ fieldChars rest ++ ['\x7d']

/-- The items after the first one. -/
def itemChars : List Json → List Char
  | [] => []
  | v :: rest => ',' :: chars v ++ itemChars rest

/-- The fields after the first one. -/
def fieldChars : List (String × Json) → List Char
  | [] => []
  | (k, v) :: rest => ',' :: quotedText k ++ ':' :: chars v ++ fieldChars rest

end

/-- The written form of a value. -/
def text (v : Json) : String := String.ofList v.chars

/-! ## Indented -/

private def newline (depth : Nat) : List Char := '\n' :: List.replicate (2 * depth) ' '

mutual

/-- The indented form of a value at a depth. -/
def indentedChars (depth : Nat) : Json → List Char
  | array (v :: rest) =>
    '[' :: newline (depth + 1) ++ indentedChars (depth + 1) v ++ indentedItems (depth + 1) rest ++
      newline depth ++ [']']
  | object ((k, v) :: rest) =>
    '\x7b' :: newline (depth + 1) ++ quotedText k ++ ':' :: ' ' :: indentedChars (depth + 1) v ++
      indentedFields (depth + 1) rest ++ newline depth ++ ['\x7d']
  | v => chars v

/-- The items after the first one. -/
def indentedItems (depth : Nat) : List Json → List Char
  | [] => []
  | v :: rest => ',' :: newline depth ++ indentedChars depth v ++ indentedItems depth rest

/-- The fields after the first one. -/
def indentedFields (depth : Nat) : List (String × Json) → List Char
  | [] => []
  | (k, v) :: rest =>
    ',' :: newline depth ++ quotedText k ++ ':' :: ' ' :: indentedChars depth v ++
      indentedFields depth rest

end

/-- The indented form of a value. -/
def indentedText (v : Json) : String := String.ofList (v.indentedChars 0)

end RecordLinkage.Json
