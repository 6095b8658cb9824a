import RecordLinkage.Fault
import RecordLinkage.Json.Fields

/-!
# Submissions

A batch consists of submissions: each asks for a record to be stored, or to be deleted. The source
and its version are given once for the whole batch, so a submission only has a local identifier and
a payload. Either may be missing; whether that is acceptable is decided when the submission is
carried out.
-/

namespace RecordLinkage

/-- A request of a batch to store or delete one record. -/
structure Submission where
  /-- The identifier of the record, if the batch gives it. -/
  localId : Option String
  payload : Option Json
  delete : Bool
  deriving Repr, Inhabited

namespace Submission

def store (localId : String) (payload : Json) : Submission := ⟨some localId, some payload, false⟩

def remove (localId : String) : Submission := ⟨some localId, none, true⟩

def fieldNames : List String := ["localId", "payload", "delete"]

/-- Reads a submission from its fields. -/
def ofFields? : List (Option Json) → Option Submission
  | [localId, payload, delete] => do
    let localId ← Json.optionalString? localId
    let delete ← Json.defaultBool? false delete
    some ⟨localId, Json.optionalValue payload, delete⟩
  | _ => none

/-- Reads a submission from a value of a batch. -/
def ofJson (v : Json) : Except Fault Submission :=
  match (v.fields? fieldNames).bind ofFields? with
  | some s => .ok s
  | none => .error (.validation "malformed record")

/-- The shown form, without what is missing. -/
def toJson (s : Submission) : Json :=
  Json.object (
    (s.localId.map fun id ↦ ("localId", Json.string id)).toList ++
    (s.payload.map fun v ↦ ("payload", v)).toList ++
    (if s.delete then [("delete", Json.bool true)] else []))

end Submission

/-- What became of a submission that was carried out. -/
inductive Outcome where
  /-- The record is new. -/
  | inserted
  /-- The record was there, and has the new payload. -/
  | updated
  /-- The record is gone. -/
  | deleted
  /-- There was nothing to do. -/
  | ignored
  deriving DecidableEq, Repr, Inhabited

end RecordLinkage
