import RecordLinkage.Store.Work

/-!
# Assigning a record to a cluster

A record belongs to the cluster that owns its match values. Where several clusters own some of them,
these clusters are merged into the one with the least identifier; where none does, the record starts
a cluster of its own. Values that nobody owned yet go to the cluster of the record.

Every cluster that changes is marked: the owners, whether they win or lose, and the cluster that the
record leaves. A cluster that lost everything keeps its mark, so that harvesters see it change.

A record without match values always starts a cluster of its own.
-/

namespace RecordLinkage

/-- Where a record ended up. -/
structure Assignment where
  /-- The cluster that the record is a member of now. -/
  cluster : ClusterId
  created : Bool
  /-- The clusters that were merged into it, ascending. -/
  merged : List ClusterId
  deriving DecidableEq, Repr, Inhabited

namespace Clustering

/-- Starts a cluster. -/
def start (now : Datestamp) (config : String) : Work Assignment := do
  let cluster : ClusterId := ⟨← Work.mint⟩
  Work.statement (Tables.createMark cluster config now)
  return ⟨cluster, true, []⟩

/-- Merges clusters into one of them. -/
def join (now : Datestamp) (config : String) (winner : ClusterId) (losers : List ClusterId) :
    Work Assignment := do
  Work.change (·.advance (winner :: losers) now)
  Work.change (·.merge config winner losers)
  return ⟨winner, false, losers⟩

/-- What the store says about a record and its match values before it is assigned. -/
structure Findings where
  /-- The owners of those values that have one. -/
  owners : List (String × ClusterId)
  /-- The cluster that the record is a member of. -/
  previous : Option ClusterId
  deriving DecidableEq, Repr, Inhabited

namespace Findings

/-- The clusters that own some of the values, ascending. -/
def owning (f : Findings) : List ClusterId := Sorted.ofList (f.owners.map (·.2))

/-- The values that nobody owns. -/
def unowned (f : Findings) (values : List String) : List String :=
  values.filter fun v ↦ !f.owners.any fun o ↦ o.1 = v

end Findings

/-- Looks up what there is to know about a record and its match values. -/
def survey (record : RecordId) (config : String) (values : List String) : Work Findings := do
  let owners ← Work.query (·.lookup config values)
  let previous ← Work.query (·.clusterOf? record config)
  return ⟨owners, previous⟩

/-- Assigns a record to a cluster under a match key, as the findings suggest. -/
def settle (now : Datestamp) (record : RecordId) (config : String) (values : List String)
    (found : Findings) : Work Assignment := do
  let assignment ←
    match found.owning with
    | [] => start now config
    | winner :: losers => join now config winner losers
  match found.previous with
  | some old =>
    if old ≠ assignment.cluster && !found.owning.contains old then
      Work.change (·.advance [old] now)
  | none => pure ()
  (found.unowned values).forM fun v ↦
    Work.statement (Tables.insertValue config assignment.cluster v)
  Work.statement (Tables.setMember record config assignment.cluster)
  return assignment

/-- Assigns a record to a cluster under a match key. -/
def assign (now : Datestamp) (record : RecordId) (config : String) (values : List String) :
    Work Assignment := do
  let found ← survey record config values
  settle now record config values found

end Clustering

end RecordLinkage
