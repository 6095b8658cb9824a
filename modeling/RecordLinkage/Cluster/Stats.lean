import RecordLinkage.Identity.Uuid
import RecordLinkage.Json.Value
import RecordLinkage.Number.Integer

/-!
# Statistics of a match key

How many clusters with members a match key has, how many members, and how both members and match
values spread over the clusters. For each number of members a few clusters are named as samples.
-/

namespace RecordLinkage

/-- The numbers of one cluster with members. -/
structure ClusterSize where
  cluster : ClusterId
  records : Nat
  values : Nat
  deriving DecidableEq, Repr, Inhabited

/-- Statistics of the clusters of one match key. -/
structure ClusterStats where
  /-- How many memberships there are. -/
  recordsTotal : Nat
  /-- How many clusters have members. -/
  clustersTotal : Nat
  /-- For each number of match values, how many clusters own that many. -/
  valuesPerCluster : List (Nat × Nat)
  /-- For each number of members, how many clusters have that many. -/
  recordsPerCluster : List (Nat × Nat)
  /-- For each number of members, some clusters that have that many. -/
  samples : List (Nat × List ClusterId)
  deriving DecidableEq, Repr, Inhabited

namespace ClusterStats

/-- How many clusters are named for each number of members. -/
def sampleSize : Nat := 3

def empty : ClusterStats := ⟨0, 0, [], [], []⟩

def add (s : ClusterStats) (c : ClusterSize) : ClusterStats where
  recordsTotal := s.recordsTotal + c.records
  clustersTotal := s.clustersTotal + 1
  valuesPerCluster := Sorted.update c.values 0 (· + 1) s.valuesPerCluster
  recordsPerCluster := Sorted.update c.records 0 (· + 1) s.recordsPerCluster
  samples := Sorted.update c.records []
    (fun named ↦ if named.length < sampleSize then named ++ [c.cluster] else named) s.samples

/-- The statistics of clusters that come in the order in which they are to be named. -/
def ofSizes (sizes : List ClusterSize) : ClusterStats := sizes.foldl add empty

private def perSize {α : Type} (f : α → Json) (entries : List (Nat × α)) : Json :=
  Json.object (entries.map fun (n, a) ↦ (Number.natText n, f a))

def toJson (s : ClusterStats) : Json :=
  Json.object [("recordsTotal", .nat s.recordsTotal), ("clustersTotal", .nat s.clustersTotal),
    ("matchValuesPerCluster", perSize .nat s.valuesPerCluster),
    ("recordsPerCluster", perSize .nat s.recordsPerCluster),
    ("recordsPerClusterSample",
      perSize (fun ids ↦ .array (ids.map fun id ↦ .string id.text)) s.samples)]

end ClusterStats

end RecordLinkage
