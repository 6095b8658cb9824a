/-!
# Blank characters

Identifiers taken from a payload are trimmed, and an identifier that is blank throughout is refused.
Blank means the Unicode property `White_Space`, which is wider than the four ASCII blanks.
-/

namespace RecordLinkage.Text

/-- The Unicode property `White_Space`. -/
def isBlank (c : Char) : Bool :=
  let n := c.toNat
  (0x09 ≤ n && n ≤ 0x0D) || n == 0x20 || n == 0x85 || n == 0xA0 || n == 0x1680 ||
    (0x2000 ≤ n && n ≤ 0x200A) || n == 0x2028 || n == 0x2029 || n == 0x202F || n == 0x205F ||
    n == 0x3000

private def dropBlank (cs : List Char) : List Char := cs.dropWhile isBlank

/-- The text without the blanks at its two ends. -/
def trim (s : String) : String :=
  String.ofList (dropBlank (dropBlank s.toList).reverse).reverse

end RecordLinkage.Text
