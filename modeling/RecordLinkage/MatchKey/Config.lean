import RecordLinkage.Json.Fields

/-!
# Match keys

A match key is a way to find records that describe the same thing: a method, and parameters that say
what the method looks for. Match values are computed whenever a record is stored, unless the match
key is updated by hand only.
-/

namespace RecordLinkage

structure MatchKey where
  /-- The name that it is addressed by. -/
  id : String
  method : String
  /-- What the method is set up with. -/
  params : Json
  /-- When match values are computed. -/
  update : String
  deriving Repr, Inhabited

namespace MatchKey

/-- Match values are computed on request only. -/
def manual : String := "manual"

/-- Match values are computed whenever a record is stored. -/
def onIngest : String := "ingest"

/-- Whether match values are computed whenever a record is stored. -/
def isAutomatic (k : MatchKey) : Bool := k.update ≠ manual

def fieldNames : List String := ["id", "method", "params", "update"]

private def ofFields? : List (Option Json) → Option MatchKey
  | [some (.string id), some (.string method), params, update] => do
    let update ← Json.defaultString? onIngest update
    some ⟨id, method, params.getD .null, update⟩
  | _ => none

/-- Reads the shown form; parameters and update may be left out. -/
def ofJson? (v : Json) : Option MatchKey := (v.fields? fieldNames).bind ofFields?

def toJson (k : MatchKey) : Json :=
  Json.object [("id", .string k.id), ("method", .string k.method), ("params", k.params),
    ("update", .string k.update)]

end MatchKey

end RecordLinkage
