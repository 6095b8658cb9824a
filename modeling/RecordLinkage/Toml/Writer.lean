import RecordLinkage.Number.Decimal

/-!
# Writing TOML

A string is written with as little escaping as possible: between quotation marks if nothing in it
needs an escape, else between apostrophes, else between three of either. Only what fits none of
these is escaped. Three marks are followed by a line end if there is one in the text, and do not
need an escape for one or two marks within it.
-/

namespace RecordLinkage.Toml

/-- A control character that has to be escaped; tabs and line ends are none. -/
def isControl (c : Char) : Bool :=
  (c.toNat < 0x20 && c ≠ '\t' && c ≠ '\n') || c.toNat = 0x7F

/-- The length of the longest run of a character. -/
def longestRun (mark : Char) (cs : List Char) : Nat :=
  (cs.foldl (fun (best, here) c ↦ if c = mark then (max best (here + 1), here + 1) else (best, 0))
    (0, 0)).1

private def hexDigit (n : Nat) : Char :=
  if n < 10 then Char.ofNat ('0'.toNat + n) else Char.ofNat ('A'.toNat + (n - 10))

private def escapedChar (c : Char) : List Char :=
  if c = '\\' then ['\\', '\\']
  else if c = '\n' then ['\\', 'n']
  else if c = '\r' then ['\\', 'r']
  else if c = '\t' then ['\\', 't']
  else if c.toNat = 8 then ['\\', 'b']
  else if c.toNat = 12 then ['\\', 'f']
  else if isControl c then ['\\', 'u', '0', '0', hexDigit (c.toNat / 16), hexDigit (c.toNat % 16)]
  else [c]

/-- Text with escapes. On several lines, line ends and up to two quotation marks in a row stay as
they are; `marks` counts those at the end of what came before. -/
def escapedChars (onLines : Bool) : Nat → List Char → List Char
  | _, [] => []
  | marks, c :: rest =>
    if c = '"' then
      if onLines && marks < 2 then c :: escapedChars onLines (marks + 1) rest
      else '\\' :: c :: escapedChars onLines 0 rest
    else if c = '\n' && onLines then c :: escapedChars onLines 0 rest
    else escapedChar c ++ escapedChars onLines 0 rest

private def between (mark : Char) (hasLines : Bool) (cs : List Char) : List Char :=
  let marks := [mark, mark, mark]
  marks ++ (if hasLines then ['\n'] else []) ++ cs ++ marks

def stringChars (s : String) : List Char :=
  let cs := s.toList
  let hasLines := cs.contains '\n'
  let hasEscapes := cs.contains '\\'
  let quotes := longestRun '"' cs
  let apostrophes := longestRun '\'' cs
  let escaped := escapedChars hasLines 0 cs
  let basic := if hasLines then between '"' true escaped else '"' :: escaped ++ ['"']
  if cs.any isControl then basic
  else if !hasEscapes && quotes = 0 && !hasLines then basic
  else if apostrophes = 0 && !hasLines then '\'' :: cs ++ ['\'']
  else if !hasEscapes && quotes ≤ 2 then between '"' hasLines (escapedChars true 0 cs)
  else if apostrophes ≤ 2 then between '\'' hasLines cs
  else basic

def fieldChars (key : String) (value : List Char) : List Char :=
  key.toList ++ [' ', '=', ' '] ++ value ++ ['\n']

def headerChars (key : String) : List Char := '[' :: key.toList ++ [']', '\n']

end RecordLinkage.Toml
