import RecordLinkage.Clustering.Assign
import RecordLinkage.Clustering.Truncate
import RecordLinkage.Ingest.Retry
import RecordLinkage.Record.Submission
import RecordLinkage.Settings.Basic
import RecordLinkage.Text.Blank

/-!
# Carrying out a submission

An ingester carries out the submissions of one batch. It knows the source and its version, and the
match keys that are computed for every record; these are looked up once, before the first
submission.

Each submission is one transaction: the record is stored, and assigned to a cluster under every
match key. If any of that fails, nothing has happened. Failures that may go by are tried again, each
time from the beginning.

## Local identifiers

A submission without a local identifier gets one from its payload, if the request says where to
look. Blanks around it are dropped.
-/

namespace RecordLinkage

/-- What all submissions of a batch have in common. -/
structure IngestRequest where
  source : SourceId
  version : Int
  /-- A query that finds the local identifier of a payload. -/
  localIdPath : Option String

/-- Carries out the submissions of a batch. -/
structure Ingester where
  /-- What stands in the way of writing. -/
  access : Access
  source : SourceId
  version : Int
  /-- Finds the local identifier of a payload. -/
  localIdPath : Option Extractor
  /-- The match keys that are computed, with their methods. -/
  keys : List (MatchKey × Method)
  /-- How many characters of a match value count. -/
  limit : Nat
  /-- How many times a submission is tried again. -/
  retries : Nat

namespace Ingester

/-- Reads the query of a request, if it has one. -/
def extractor? : Option String → Except Fault (Option Extractor)
  | some text => (Extractor.parse text).map some
  | none => .ok none

/-- Looks up the match keys and sets up their methods. -/
def create (access : Access) (tenant : TenantId) (request : IngestRequest)
    (settings : IngestSettings) : Work Ingester := do
  let localIdPath ← Work.ofExcept (extractor? request.localIdPath)
  let all ← Work.query Tables.listMatchKeys
  let keys ← (all.filter MatchKey.isAutomatic).mapM fun k ↦ do
    let kept ← Work.method tenant k
    return (k, kept.method)
  return {
    access
    source := request.source
    version := request.version
    localIdPath
    keys
    limit := settings.matchValueMaxLength
    retries := settings.retries }

/-- The names of the match keys that are computed. -/
def matchKeys (i : Ingester) : List String := i.keys.map fun k ↦ k.1.id

/-- The local identifier of a submission: given, or found in the payload. -/
def localId (i : Ingester) (s : Submission) : Except Fault String :=
  match s.localId with
  | some id => .ok id
  | none =>
    match i.localIdPath, s.payload with
    | some path, some payload =>
      match path.firstString? payload with
      | some id => .ok (Text.trim id)
      | none => .error (.validation "localId required")
    | _, _ => .error (.validation "localId required")

/-- The key of a record with that local identifier. -/
def key (i : Ingester) (localId : String) : RecordKey := ⟨localId, i.source, i.version⟩

def delete (i : Ingester) (now : Datestamp) (localId : String) : Work Outcome := do
  let found ← Work.update fun t ↦ t.deleteRecord (i.key localId) now
  return if found then .deleted else .ignored

/-- Assigns a record under every match key. -/
def assignAll (i : Ingester) (now : Datestamp) (record : RecordId) (payload : Json) : Work Unit :=
  i.keys.forM fun (k, method) ↦ do
    let values ← Work.ofExcept (method.matchValues payload)
    let _ ← Clustering.assign now record k.id (Clustering.truncate i.limit values)

/-- Stores a record and assigns it. -/
def store (i : Ingester) (now : Datestamp) (localId : String) (payload : Json) : Work Outcome := do
  let candidate : RecordId := ⟨← Work.mint⟩
  let cell ← Work.statement (Tables.storeRecord candidate (i.key localId) payload)
  let record ← Work.ofExcept cell.read
  i.assignAll now record payload
  return if record = candidate then .inserted else .updated

/-- Carries out a submission, once. -/
def attempt (i : Ingester) (now : Datestamp) (s : Submission) (localId : String) : Work Outcome :=
  Work.transaction i.access do
    if s.delete then i.delete now localId
    else
      match s.payload with
      | some payload => i.store now localId payload
      | none => Work.fail (.validation "payload required")

/-- Carries out a submission. -/
def ingest (i : Ingester) (now : Datestamp) (s : Submission) : Work Outcome := do
  let localId ← Work.ofExcept (i.localId s)
  if !s.delete && s.payload.isNone then Work.fail (.validation "payload required")
  else ExceptT.mk (retry i.retries fun _ ↦ (i.attempt now s localId).run)

end Ingester

end RecordLinkage
