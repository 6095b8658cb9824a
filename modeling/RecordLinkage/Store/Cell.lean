import RecordLinkage.Fault
import RecordLinkage.Identity.Uuid

/-!
# Columns that hold identifiers

Identifiers are stored as text, and other programs may write to the same file. A cell therefore
holds either an identifier in its written form, or some other text. The other text is not touched
until somebody asks for the identifier; it may even turn out to be one, in another spelling.

Cells are compared as the database compares them, by their text.
-/

namespace RecordLinkage

/-- A column that holds an identifier. -/
inductive Cell (α : Type) where
  /-- The written form of an identifier. -/
  | intact (id : α)
  /-- A text that is not the written form of an identifier. -/
  | other (text : String)
  deriving DecidableEq, Repr

namespace Cell

variable {α : Type} [Identifier α]

def text : Cell α → String
  | intact id => Identifier.text id
  | other text => text

/-- The cell with a given text. -/
def ofText (s : String) : Cell α :=
  match Identifier.ofText? s with
  | some id => if Identifier.text (id : α) = s then intact id else other s
  | none => other s

/-- The identifier that a cell holds. -/
def read : Cell α → Except Fault α
  | intact id => .ok id
  | other text =>
    match Identifier.ofText? text with
    | some id => .ok id
    | none => .error (.invalidId text)

/-- The order of the texts of two cells. That of two identifiers is the order of their texts. -/
def before [LT α] [DecidableLT α] : Cell α → Cell α → Bool
  | intact a, intact b => a < b
  | a, b => a.text < b.text

theorem read_intact (id : α) : (intact id).read = .ok id := rfl

end Cell

end RecordLinkage
