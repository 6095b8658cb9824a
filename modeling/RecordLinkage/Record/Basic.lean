import RecordLinkage.Identity.Uuid
import RecordLinkage.Json.Fields

/-!
# Records

A record is what a source delivered under a local identifier: a payload, in one version of that
source. The source is named by plain text here, as it was stored.
-/

namespace RecordLinkage

structure Record where
  id : RecordId
  /-- The identifier that the source knows it by. -/
  localId : String
  /-- The source that delivered it. -/
  sourceId : String
  /-- The version of the source that it belongs to. -/
  sourceVersion : Int
  payload : Json
  deriving Repr, Inhabited

namespace Record

/-- The order in which records are listed: by source, version and local identifier. -/
def before (a b : Record) : Bool :=
  if a.sourceId = b.sourceId then
    if a.sourceVersion = b.sourceVersion then a.localId < b.localId
    else a.sourceVersion < b.sourceVersion
  else a.sourceId < b.sourceId

def fieldNames : List String := ["globalId", "localId", "sourceId", "sourceVersion", "payload"]

def toJson (r : Record) : Json :=
  Json.object [("globalId", .string r.id.text), ("localId", .string r.localId),
    ("sourceId", .string r.sourceId), ("sourceVersion", .int r.sourceVersion),
    ("payload", r.payload)]

private def version? (v : Json) : Option Int :=
  v.int?.filter fun i ↦ -(2 ^ 63) ≤ i && i < 2 ^ 63

/-- Reads the shown form. -/
def ofJson? (v : Json) : Option Record := do
  match ← v.fields? fieldNames with
  | [some id, some localId, some sourceId, some version, some payload] =>
    let id ← RecordId.ofText? (← id.string?)
    some ⟨id, ← localId.string?, ← sourceId.string?, ← version? version, payload⟩
  | _ => none

end Record

end RecordLinkage
