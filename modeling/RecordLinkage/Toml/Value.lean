/-!
# TOML values

Settings are written in TOML. No setting is a number with a fraction or a date, so of those only the
kind is kept; of everything else the value is.

A table remembers how it came about, because that decides what may still be added to it.
-/

namespace RecordLinkage

/-- How a table came about. -/
inductive Toml.Form where
  /-- It was given in braces. Nothing is added to it. -/
  | closed
  /-- It has a header of its own. -/
  | header
  /-- The header of a table inside it implies it. It may still get a header of its own. -/
  | implied
  /-- A dotted key implies it. More dotted keys may add to it. -/
  | dotted
  deriving DecidableEq, Repr

inductive Toml where
  | string (value : String)
  | integer (value : Int)
  | float
  | bool (value : Bool)
  | date
  | array (items : List Toml)
  | table (form : Toml.Form) (fields : List (String × Toml))
  /-- Tables whose common header is written between double brackets. -/
  | tables (items : List Toml)
  deriving Repr

namespace Toml

instance : Inhabited Toml := ⟨float⟩

def lookup (key : String) (fields : List (String × Toml)) : Option Toml :=
  (fields.find? fun field ↦ field.1 = key).map (·.2)

/-- Replaces the value of a key. -/
def replace (key : String) (value : Toml) (fields : List (String × Toml)) : List (String × Toml) :=
  fields.map fun field ↦ if field.1 = key then (key, value) else field

/-! ## Adding to tables

A path leads from a table down to one inside it. Tables that are missing on the way are made. Where
several tables share a header, the way leads through the last of them.
-/

/-- How a path is given. -/
inductive Way where
  | header
  | dotted
  deriving DecidableEq, Repr

/-- The form of a table that is missing on the way. -/
def Way.form : Way → Form
  | header => .implied
  | dotted => .dotted

/-- Whether a way may lead through a table. -/
def Way.passes (way : Way) (form : Form) : Bool :=
  match way, form with
  | _, .closed => false
  | .dotted, .header => false
  | _, _ => true

/-- Changes the table that a path leads to; nothing where there is no way. -/
def changeAt (way : Way) (change : Form → List (String × Toml) → Option (List (String × Toml))) :
    List String → Form → List (String × Toml) → Option (List (String × Toml))
  | [], form, fields => change form fields
  | key :: path, _, fields =>
    match lookup key fields with
    | none =>
      (changeAt way change path way.form []).map fun inner ↦
        fields ++ [(key, .table way.form inner)]
    | some (.table form inner) =>
      if way.passes form then
        (changeAt way change path form inner).map fun inner ↦
          replace key (.table form inner) fields
      else none
    | some (.tables items) =>
      match items.getLast? with
      | some (.table form inner) =>
        (changeAt way change path form inner).map fun inner ↦
          replace key (.tables (items.dropLast ++ [.table form inner])) fields
      | _ => none
    | some _ => none

/-- Adds a value under a dotted key. A table that dotted keys made is not added to by a plain one,
nor the other way round. -/
def addValue (path : List String) (key : String) (value : Toml) (form : Form)
    (fields : List (String × Toml)) : Option (List (String × Toml)) :=
  changeAt .dotted (fun form fields ↦
    if (form = .dotted) = path.isEmpty || (lookup key fields).isSome then none
    else some (fields ++ [(key, value)])) path form fields

/-- Opens the table of a header. -/
def openTable (key : String) (_ : Form) (fields : List (String × Toml)) :
    Option (List (String × Toml)) :=
  match lookup key fields with
  | none => some (fields ++ [(key, .table .header [])])
  | some (.table .implied inner) => some (replace key (.table .header inner) fields)
  | some _ => none

/-- Opens one more table of a common header. -/
def openTables (key : String) (_ : Form) (fields : List (String × Toml)) :
    Option (List (String × Toml)) :=
  match lookup key fields with
  | none => some (fields ++ [(key, .tables [.table .header []])])
  | some (.tables items) => some (replace key (.tables (items ++ [.table .header []])) fields)
  | some _ => none

end Toml

end RecordLinkage
