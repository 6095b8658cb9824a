import RecordLinkage.Record.Submission

/-!
# What came of a batch

A summary counts the submissions of a batch by what became of them. A submission that failed counts
as ignored, and a limited number of failures are kept as samples.
-/

namespace RecordLinkage

/-- A submission that failed. -/
structure Failure where
  /-- The identifier of the record, as far as it is known. -/
  localId : Option String
  message : String
  deriving DecidableEq, Repr

/-- What came of a batch. -/
structure Summary where
  /-- How many submissions there were. -/
  processed : Nat
  /-- How many of them changed nothing. -/
  ignored : Nat
  inserted : Nat
  updated : Nat
  deleted : Nat
  /-- The first failures. -/
  failures : List Failure
  deriving DecidableEq, Repr

namespace Summary

/-- How many failures are kept. -/
def sampleLimit : Nat := 100

def empty : Summary := ⟨0, 0, 0, 0, 0, []⟩

/-- Counts a submission that was carried out. -/
def count (s : Summary) (outcome : Outcome) : Summary :=
  let s := { s with processed := s.processed + 1 }
  match outcome with
  | .inserted => { s with inserted := s.inserted + 1 }
  | .updated => { s with updated := s.updated + 1 }
  | .deleted => { s with deleted := s.deleted + 1 }
  | .ignored => { s with ignored := s.ignored + 1 }

/-- Counts a submission that failed. -/
def fail (s : Summary) (localId : Option String) (fault : Fault) : Summary :=
  { s with
    processed := s.processed + 1
    ignored := s.ignored + 1
    failures :=
      if s.failures.length < sampleLimit then s.failures ++ [⟨localId, fault.message⟩]
      else s.failures }

private def failureJson (f : Failure) : Json :=
  Json.object ((f.localId.map fun id ↦ ("localId", Json.string id)).toList ++
    [("message", .string f.message)])

/-- The shown form, without failures if there are none. -/
def toJson (s : Summary) : Json :=
  Json.object ([("processed", .nat s.processed), ("ignored", .nat s.ignored),
    ("inserted", .nat s.inserted), ("updated", .nat s.updated), ("deleted", .nat s.deleted)] ++
    if s.failures.isEmpty then []
    else [("errors", .array (s.failures.map failureJson))])

end Summary

end RecordLinkage
