import RecordLinkage.Json.Printer
import RecordLinkage.Json.Scanner
import RecordLinkage.Store.Tables

/-!
# Match keys in the store

Match keys are known by their name. Deleting one deletes everything that was computed for it.
-/

namespace RecordLinkage

namespace MatchKeyRow

/-- The row that stores a match key. -/
def ofMatchKey (k : MatchKey) : MatchKeyRow := ⟨k.id, k.method, k.params.text, k.update⟩

/-- The match key of a row. -/
def read (r : MatchKeyRow) : Except Fault MatchKey :=
  match Json.parse? r.params with
  | some params => .ok ⟨r.id, r.method, params, r.update⟩
  | none => .error .invalidParams

end MatchKeyRow

namespace Tables

/-- Whether there is a match key of that name. -/
def hasMatchKey (t : Tables) (id : String) : Bool := t.matchKeys.any fun r ↦ r.id = id

/-- The match key of that name. -/
def matchKey? (t : Tables) (id : String) : Except Fault (Option MatchKey) :=
  match t.matchKeys.find? fun r ↦ r.id = id with
  | some row => row.read.map some
  | none => .ok none

/-- All match keys, by name. -/
def listMatchKeys (t : Tables) : Except Fault (List MatchKey) :=
  (Sorted.sortBy (fun a b ↦ a.id < b.id) t.matchKeys).mapM MatchKeyRow.read

/-- Adds a match key under a new name. -/
def insertMatchKey (k : MatchKey) : Statement Unit := fun t ↦
  if t.hasMatchKey k.id then .error (.duplicate "match_key_config.id")
  else .ok ((), { t with matchKeys := t.matchKeys ++ [MatchKeyRow.ofMatchKey k] })

/-- Changes a match key. The answer is whether there is one of its name. -/
def updateMatchKey (t : Tables) (k : MatchKey) : Bool × Tables :=
  (t.hasMatchKey k.id, { t with matchKeys := t.matchKeys.map fun r ↦
    if r.id = k.id then MatchKeyRow.ofMatchKey k else r })

/-- Removes the marks, owners and memberships of a match key. -/
def clear (t : Tables) (config : String) : Tables :=
  { t with
    marks := t.marks.filter fun m ↦ m.config ≠ config
    owners := t.owners.filter fun o ↦ o.config ≠ config
    members := t.members.filter fun m ↦ m.config ≠ config }

/-- Deletes a match key. The answer is whether there was one of that name. -/
def deleteMatchKey (t : Tables) (id : String) : Bool × Tables :=
  (t.hasMatchKey id,
    { t.clear id with matchKeys := t.matchKeys.filter fun r ↦ r.id ≠ id })

end Tables

end RecordLinkage
