import RecordLinkage.Cluster.Stats
import RecordLinkage.Store.Records
import RecordLinkage.Store.MatchKeys

/-!
# Clusters in the store

The statements that the assignment of records to clusters is made of, and the views of the result.
Sets of values and of clusters are ascending lists.
-/

namespace RecordLinkage

namespace ClusterMark

/-- The mark of a row, whose datestamp has to be in range. -/
def read (m : ClusterMark) : Except Fault ClusterMark :=
  if m.datestamp < Datestamp.limit then .ok m else .error .invalidColumn

/-- The order in which harvesters see the clusters. -/
def before (a b : ClusterMark) : Bool :=
  if a.datestamp = b.datestamp then a.cluster < b.cluster else a.datestamp < b.datestamp

end ClusterMark

namespace Tables

/-! ## Owners of values -/

/-- The cell that names the owner of a value. -/
def ownerCell? (t : Tables) (config value : String) : Option (Cell ClusterId) :=
  (t.owners.find? fun o ↦ o.config = config && o.value = value).map (·.cluster)

/-- The owner of a value. -/
def ownerOf? (t : Tables) (config value : String) : Except Fault (Option ClusterId) :=
  match t.ownerCell? config value with
  | some cell => cell.read.map some
  | none => .ok none

/-- The owners of those values that have one. -/
def lookup (t : Tables) (config : String) (values : List String) :
    Except Fault (List (String × ClusterId)) :=
  let owned := values.filterMap fun v ↦ (t.ownerCell? config v).map fun cell ↦ (v, cell)
  owned.mapM fun (v, cell) ↦ cell.read.map fun id ↦ (v, id)

/-- Makes a cluster the owner of a value that nobody owns. -/
def insertValue (config : String) (cluster : ClusterId) (value : String) : Statement Unit :=
  fun t ↦
    if (t.ownerCell? config value).isSome then
      .error (.duplicate "cluster_values.match_key_config_id, cluster_values.match_value")
    else if !t.hasMatchKey config then .error .foreignKey
    else .ok ((), { t with owners := t.owners ++ [⟨config, value, .intact cluster⟩] })

/-! ## Memberships -/

/-- The membership of a record. -/
def member? (t : Tables) (record : RecordId) (config : String) : Option MemberRow :=
  t.members.find? fun m ↦ m.record = record && m.config = config

/-- The cluster that a record is a member of. -/
def clusterOf? (t : Tables) (record : RecordId) (config : String) :
    Except Fault (Option ClusterId) :=
  match t.member? record config with
  | some m => m.cluster.read.map some
  | none => .ok none

/-- Makes a record a member of a cluster, and of no other one of that match key. -/
def setMember (record : RecordId) (config : String) (cluster : ClusterId) : Statement Unit :=
  fun t ↦
    if (t.member? record config).isSome then
      let members := t.members.map fun m ↦
        if m.record = record && m.config = config then { m with cluster := .intact cluster } else m
      .ok ((), { t with members })
    else if !t.hasMatchKey config || (t.recordRow? record).isNone then .error .foreignKey
    else .ok ((), { t with members := t.members ++ [⟨record, config, .intact cluster⟩] })

/-! ## Marks -/

def mark? (t : Tables) (cluster : ClusterId) : Except Fault (Option ClusterMark) :=
  match t.marks.find? fun m ↦ m.cluster = cluster with
  | some m => m.read.map some
  | none => .ok none

/-- Marks a new cluster. -/
def createMark (cluster : ClusterId) (config : String) (now : Datestamp) : Statement Unit :=
  fun t ↦
    if t.marks.any fun m ↦ m.cluster = cluster then .error (.duplicate "cluster_meta.cluster_id")
    else if !t.hasMatchKey config then .error .foreignKey
    else .ok ((), { t with marks := t.marks ++ [⟨cluster, config, now⟩] })

/-- Marks some clusters as changed. -/
def advance (t : Tables) (clusters : List ClusterId) (now : Datestamp) : Tables :=
  t.advanceWhere (fun c ↦ clusters.contains c) now

/-- Whether a mark is to be listed: from a datestamp on, or after a cluster at that datestamp. -/
def isListed (since : Datestamp) (place : Option ClusterId) (m : ClusterMark) : Bool :=
  match place with
  | none => since ≤ m.datestamp
  | some id => since < m.datestamp || (m.datestamp = since && id < m.cluster)

/-- The first marks of a match key from a place on, by datestamp and cluster. -/
def changedSince (t : Tables) (config : String) (since : Datestamp) (place : Option ClusterId)
    (limit : Nat) : Except Fault (List ClusterMark) :=
  let marks := t.marks.filter fun m ↦ m.config = config && isListed since place m
  ((Sorted.sortBy ClusterMark.before marks).take limit).mapM ClusterMark.read

/-! ## Merging -/

/-- Gives the values and members of some clusters to another one. Their marks stay. -/
def merge (t : Tables) (config : String) (winner : ClusterId) (losers : List ClusterId) : Tables :=
  let moved (under : String) (cell : Cell ClusterId) : Cell ClusterId :=
    match cell with
    | .intact c => if under = config && losers.contains c then .intact winner else cell
    | .other _ => cell
  { t with
    owners := t.owners.map fun o ↦ { o with cluster := moved o.config o.cluster }
    members := t.members.map fun m ↦ { m with cluster := moved m.config m.cluster } }

/-! ## Views -/

/-- The rows of the members of a cluster. -/
def memberRows (t : Tables) (cluster : ClusterId) : List RecordRow :=
  (t.members.filter fun m ↦ m.cluster = .intact cluster).filterMap fun m ↦ t.recordRow? m.record

def valuesOf (t : Tables) (cluster : ClusterId) : List String :=
  (t.owners.filter fun o ↦ o.cluster = .intact cluster).map (·.value)

/-- A cluster with its records and values, as long as it has a mark. -/
def cluster? (t : Tables) (cluster : ClusterId) : Except Fault (Option ClusterView) := do
  match ← t.mark? cluster with
  | none => return none
  | some m =>
    let records ← (t.memberRows cluster).mapM RecordRow.read
    return some (ClusterView.of m.cluster (some m.datestamp) records (t.valuesOf cluster))

/-- How many owners, memberships and marks there are for a match key. -/
def counts (t : Tables) (config : String) : Nat × Nat × Nat :=
  (t.owners.countP fun o ↦ o.config = config, t.members.countP fun m ↦ m.config = config,
    t.marks.countP fun m ↦ m.config = config)

/-- The cells that name clusters with members, each once, in the order of their texts. -/
def memberCells (t : Tables) (config : String) : List (Cell ClusterId) :=
  Sorted.sortBy Cell.before
    ((t.members.filter fun m ↦ m.config = config).map (·.cluster)).eraseDups

/-- The numbers of the cluster that a cell names. -/
def sizeOf (t : Tables) (config : String) (cell : Cell ClusterId) : Except Fault ClusterSize :=
  cell.read.map fun id ↦
    ⟨id, t.members.countP fun m ↦ m.config = config && m.cluster = cell,
      t.owners.countP fun o ↦ o.config = config && o.cluster = cell⟩

/-- The statistics of a match key. -/
def stats (t : Tables) (config : String) : Except Fault ClusterStats :=
  ((t.memberCells config).mapM (t.sizeOf config)).map ClusterStats.ofSizes

end Tables

end RecordLinkage
