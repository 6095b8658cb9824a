import RecordLinkage.Json.Value

/-!
# Named fields of a JSON value

Something with named fields is written as an object, and read from one; fields of other names are
ignored. It is also read from an array that gives the fields in their order, where fields at the end
may be left out but nothing may follow the last one.
-/

namespace RecordLinkage.Json

/-- The values of the named fields, in the order of the names, as far as they are given. -/
def fields? (names : List String) : Json → Option (List (Option Json))
  | object fields => some (names.map fun name ↦ Sorted.get? name fields)
  | array items =>
    if items.length ≤ names.length then
      some (items.map some ++ List.replicate (names.length - items.length) none)
    else none
  | _ => none

/-- A text that may be missing or null. -/
def optionalString? : Option Json → Option (Option String)
  | none | some null => some none
  | some (string s) => some (some s)
  | some _ => none

/-- A value that may be missing; null counts as missing. -/
def optionalValue : Option Json → Option Json
  | none | some null => none
  | some v => some v

/-- A truth value that may be missing. -/
def defaultBool? (fallback : Bool) : Option Json → Option Bool
  | none => some fallback
  | some v => v.bool?

/-- A text that may be missing. -/
def defaultString? (fallback : String) : Option Json → Option String
  | none => some fallback
  | some v => v.string?

end RecordLinkage.Json
