import RecordLinkage.Cluster.View
import RecordLinkage.Identity.Name
import RecordLinkage.MatchKey.Config
import RecordLinkage.Store.Cell

/-!
# Tables

Five tables hold everything: the records, the match keys, and for each match key the marks of its
clusters, the match values that they own, and the records that are members of them.

## What refers to what

A record is known by its identifier and by its key. A value has one owner for each match key, a
record one membership for each match key, and a cluster one mark. Marks, owners and memberships
refer to a match key, memberships also to a record; when what they refer to goes, they go as well.
Nothing refers to a cluster: that its values and members agree with its mark is up to those who
write them.

Rows stay in the order in which they were inserted.
-/

namespace RecordLinkage

/-- What a record is known by to its source. -/
structure RecordKey where
  /-- The identifier that the source uses. -/
  localId : String
  source : SourceId
  version : Int
  deriving DecidableEq, Repr

namespace RecordKey

/-- The order in which records are listed: by source, version and local identifier. -/
def before (a b : RecordKey) : Bool :=
  if a.source = b.source then
    if a.version = b.version then a.localId < b.localId else a.version < b.version
  else a.source.text < b.source.text

end RecordKey

structure RecordRow where
  id : Cell RecordId
  key : RecordKey
  /-- Its payload, as text. -/
  payload : String
  deriving DecidableEq, Repr

structure MatchKeyRow where
  id : String
  method : String
  /-- Its parameters, as text. -/
  params : String
  /-- When its match values are computed. -/
  update : String
  deriving DecidableEq, Repr

/-- A match value that a cluster owns. -/
structure OwnerRow where
  config : String
  value : String
  /-- The cluster that owns it. -/
  cluster : Cell ClusterId
  deriving DecidableEq, Repr

/-- A record that is a member of a cluster. -/
structure MemberRow where
  record : RecordId
  config : String
  cluster : Cell ClusterId
  deriving DecidableEq, Repr

/-- Everything that is stored. -/
structure Tables where
  records : List RecordRow
  matchKeys : List MatchKeyRow
  marks : List ClusterMark
  owners : List OwnerRow
  members : List MemberRow
  deriving DecidableEq, Repr

namespace Tables

def empty : Tables := ⟨[], [], [], [], []⟩

end Tables

/-- A statement that changes tables as a whole or fails and leaves them alone. -/
abbrev Statement (α : Type) := Tables → Except Fault (α × Tables)

end RecordLinkage
