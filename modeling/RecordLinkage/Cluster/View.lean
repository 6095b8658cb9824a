import RecordLinkage.Record.Basic
import RecordLinkage.Time.Datestamp

/-!
# Clusters as they are shown

A cluster groups the records that share match values. Its view lists the records of the latest
version of each source, in the order of sources, versions and local identifiers, and its match
values in ascending order, each once. So the view does not depend on the order in which the parts
were found.

The mark of a cluster is what a harvester pages through: its identifier, the match key it belongs
to, and when it last changed.
-/

namespace RecordLinkage

/-- The mark that a cluster leaves for harvesters. -/
structure ClusterMark where
  cluster : ClusterId
  config : String
  /-- When it last changed. -/
  datestamp : Datestamp
  deriving DecidableEq, Repr, Inhabited

namespace ClusterMark

def toJson (m : ClusterMark) : Json :=
  Json.object [("clusterId", .string m.cluster.text), ("matchKeyConfigId", .string m.config),
    ("datestamp", .int m.datestamp)]

end ClusterMark

/-- A cluster as it is shown. -/
structure ClusterView where
  cluster : ClusterId
  /-- When it last changed, as a date. -/
  datestamp : Option String
  records : List Record
  matchValues : List String
  deriving Repr, Inhabited

namespace ClusterView

/-- Whether no record of the same source has a later version. -/
def isLatest (records : List Record) (r : Record) : Bool :=
  records.all fun other ↦ other.sourceId ≠ r.sourceId || other.sourceVersion ≤ r.sourceVersion

/-- The view of a cluster with the given parts. -/
def of (cluster : ClusterId) (datestamp : Option Datestamp) (records : List Record)
    (matchValues : List String) : ClusterView where
  cluster := cluster
  datestamp := datestamp.bind Datestamp.text?
  records := Sorted.sortBy Record.before (records.filter (isLatest records))
  matchValues := Sorted.ofList matchValues

def toJson (c : ClusterView) : Json :=
  Json.object (
    [("clusterId", .string c.cluster.text)] ++
    (c.datestamp.map fun date ↦ ("datestamp", Json.string date)).toList ++
    [("records", .array (c.records.map Record.toJson)),
      ("matchValues", .array (c.matchValues.map .string))])

end ClusterView

end RecordLinkage
