import RecordLinkage.Store.Clusters

/-!
# Columns that other programs overwrite

A database file is open to other programs. They may put any text into the columns that hold
payloads, parameters and identifiers, as long as what has to be unique stays unique and what
memberships refer to stays there. The answers say how many rows were overwritten.
-/

namespace RecordLinkage

/-- A column that can be overwritten, with the rows that are meant. -/
inductive Column where
  /-- The payloads of the records with that local identifier. -/
  | payload (localId : String)
  /-- The identifiers of the records with that local identifier. -/
  | recordId (localId : String)
  | params (config : String)
  /-- The owner of a value, under any match key. -/
  | valueOwner (value : String)
  /-- The clusters of all members under a match key. -/
  | membership (config : String)
  deriving DecidableEq, Repr

namespace Tables

private def overwriteIds (localId : String) (cell : Cell RecordId) : Statement Nat := fun t ↦
  let meant (r : RecordRow) : Bool := r.key.localId = localId
  let count := t.records.countP meant
  let changes (r : RecordRow) : Bool := meant r && r.id ≠ cell
  let isReferredTo (r : RecordRow) : Bool := t.members.any fun m ↦ r.id = .intact m.record
  if 1 < count || (0 < count && t.records.any fun r ↦ !meant r && r.id = cell) then
    .error (.duplicate "global_records.id")
  else if t.records.any fun r ↦ changes r && isReferredTo r then .error .foreignKey
  else
    let records := t.records.map fun r ↦ if meant r then { r with id := cell } else r
    .ok (count, { t with records })

def overwrite (column : Column) (text : String) : Statement Nat := fun t ↦
  match column with
  | .payload localId =>
    let records := t.records.map fun r ↦
      if r.key.localId = localId then { r with payload := text } else r
    .ok (t.records.countP fun r ↦ r.key.localId = localId, { t with records })
  | .recordId localId => overwriteIds localId (.ofText text) t
  | .params config =>
    let matchKeys := t.matchKeys.map fun r ↦
      if r.id = config then { r with params := text } else r
    .ok (t.matchKeys.countP fun r ↦ r.id = config, { t with matchKeys })
  | .valueOwner value =>
    let owners := t.owners.map fun o ↦
      if o.value = value then { o with cluster := .ofText text } else o
    .ok (t.owners.countP fun o ↦ o.value = value, { t with owners })
  | .membership config =>
    let members := t.members.map fun m ↦
      if m.config = config then { m with cluster := .ofText text } else m
    .ok (t.members.countP fun m ↦ m.config = config, { t with members })

end Tables

end RecordLinkage
