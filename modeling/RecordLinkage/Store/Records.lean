import RecordLinkage.Json.Printer
import RecordLinkage.Json.Scanner
import RecordLinkage.Store.Tables

/-!
# Records in the store

The records are a map from keys to payloads. Storing under a key that is there replaces the payload
and keeps the identifier; otherwise the record gets the identifier that is offered for it.

When a record is deleted, its memberships go with it, and every cluster that it was a member of is
marked as changed. Owned values stay.

## Advancing a datestamp

The new datestamp is the present time, but at least one more than the old one, so that it always
grows. The datestamp after the greatest 64-bit number is a number that can be stored and compared,
but no longer read nor advanced.
-/

namespace RecordLinkage

/-- One more than the greatest datestamp that can be read. -/
def Datestamp.limit : Datestamp := 2 ^ 63

/-- The datestamp of a change at a time. -/
def Datestamp.advance (stamp now : Datestamp) : Datestamp :=
  max (min (stamp + 1) Datestamp.limit) now

namespace RecordRow

def read (r : RecordRow) : Except Fault Record := do
  let id ← r.id.read
  match Json.parse? r.payload with
  | some payload => .ok ⟨id, r.key.localId, r.key.source.text, r.key.version, payload⟩
  | none => .error .invalidPayload

end RecordRow

namespace Tables

/-! ## Looking records up -/

/-- The row of a key. -/
def recordOf? (t : Tables) (key : RecordKey) : Option RecordRow :=
  t.records.find? fun r ↦ r.key = key

/-- The row with an identifier. -/
def recordRow? (t : Tables) (id : RecordId) : Option RecordRow :=
  t.records.find? fun r ↦ r.id = .intact id

/-- The record with an identifier. -/
def record? (t : Tables) (id : RecordId) : Except Fault (Option Record) :=
  match t.recordRow? id with
  | some row => row.read.map some
  | none => .ok none

/-- The records, or those of one source, by source, version and local identifier. -/
def listRecords (t : Tables) (source : Option SourceId) : Except Fault (List Record) :=
  let rows := t.records.filter fun r ↦
    match source with
    | some s => r.key.source = s
    | none => true
  (Sorted.sortBy (fun a b ↦ a.key.before b.key) rows).mapM RecordRow.read

/-- Whether a row comes after a place in the order of identifiers. -/
def isAfter (place : Option RecordId) (r : RecordRow) : Bool :=
  match place with
  | some id => (Cell.intact id).before r.id
  | none => r.id.text ≠ ""

/-- The first rows after a place, in the order of identifiers. -/
def pageRows (t : Tables) (place : Option RecordId) (limit : Nat) : List RecordRow :=
  (Sorted.sortBy (fun a b ↦ a.id.before b.id) (t.records.filter (isAfter place))).take limit

/-- The first records after a place, in the order of identifiers. -/
def pageRecords (t : Tables) (place : Option RecordId) (limit : Nat) :
    Except Fault (List Record) :=
  (t.pageRows place limit).mapM RecordRow.read

/-! ## Marks of clusters that change -/

/-- Advances the datestamps of some clusters. -/
def advanceWhere (t : Tables) (changed : ClusterId → Bool) (now : Datestamp) : Tables :=
  { t with marks := t.marks.map fun m ↦
      if changed m.cluster then { m with datestamp := m.datestamp.advance now } else m }

/-- Whether some record that fits is a member of a cluster. -/
def holdsRecord (t : Tables) (fits : RecordRow → Bool) (cluster : ClusterId) : Bool :=
  t.members.any fun m ↦ m.cluster = .intact cluster &&
    t.records.any fun r ↦ r.id = .intact m.record && fits r

/-! ## Storing and deleting -/

/-- Stores a payload under a key. The answer is the identifier of the record. -/
def storeRecord (candidate : RecordId) (key : RecordKey) (payload : Json) :
    Statement (Cell RecordId) := fun t ↦
  match t.recordOf? key with
  | some row =>
    let records := t.records.map fun r ↦
      if r.key = key then { r with payload := payload.text } else r
    .ok (row.id, { t with records })
  | none =>
    if (t.recordRow? candidate).isSome then .error (.duplicate "global_records.id")
    else
      let row : RecordRow := ⟨.intact candidate, key, payload.text⟩
      .ok (.intact candidate, { t with records := t.records ++ [row] })

/-- Removes some records together with their memberships. -/
def removeRecords (t : Tables) (fits : RecordRow → Bool) : Tables :=
  { t with
    records := t.records.filter fun r ↦ !fits r
    members := t.members.filter fun m ↦
      !t.records.any fun r ↦ r.id = .intact m.record && fits r }

/-- Deletes some records and marks their clusters as changed. The answer is how many there were. -/
def deleteRecords (t : Tables) (fits : RecordRow → Bool) (now : Datestamp) : Nat × Tables :=
  (t.records.countP fits, (t.advanceWhere (t.holdsRecord fits) now).removeRecords fits)

/-- Deletes the record of a key. The answer is whether there was one. -/
def deleteRecord (t : Tables) (key : RecordKey) (now : Datestamp) : Bool × Tables :=
  let (count, t) := t.deleteRecords (fun r ↦ r.key = key) now
  (0 < count, t)

/-- Deletes all records of a source, of any version. The answer is how many there were. -/
def deleteSource (t : Tables) (source : SourceId) (now : Datestamp) : Nat × Tables :=
  t.deleteRecords (fun r ↦ r.key.source = source) now

end Tables

end RecordLinkage
