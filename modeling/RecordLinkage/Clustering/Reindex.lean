import RecordLinkage.Clustering.Assign
import RecordLinkage.Clustering.Truncate
import RecordLinkage.Store.Database

/-!
# Computing a match key anew

All records are assigned under one match key, in the order of their identifiers and page by page, as
one transaction. Each record is assigned atomically: one that fails is counted and leaves no trace,
and the others go on. Only a page that cannot be read ends the whole, and undoes it.

What the match key owns already is not removed first.
-/

namespace RecordLinkage

/-- What came of computing a match key anew. -/
structure ReindexStats where
  total : Nat
  /-- How many of them failed. -/
  failed : Nat
  deriving DecidableEq, Repr, Inhabited

namespace ReindexStats

def toJson (s : ReindexStats) : Json :=
  Json.object [("totalRecords", .nat s.total), ("failedRecords", .nat s.failed)]

/-- One more record, that failed or not. -/
def add (s : ReindexStats) (hasFailed : Bool) : ReindexStats :=
  ⟨s.total + 1, if hasFailed then s.failed + 1 else s.failed⟩

end ReindexStats

namespace Clustering

/-- How a match key is computed. -/
structure Recipe where
  now : Datestamp
  config : String
  method : Method
  /-- How many characters of a match value count. -/
  limit : Nat

def reindexRecord (r : Recipe) (record : Record) : Work Unit := do
  let values ← Work.ofExcept (r.method.matchValues record.payload)
  let _ ← assign r.now record.id r.config (truncate r.limit values)

/-- Assigns records one after the other, each by itself. -/
def reindexRecords (r : Recipe) (stats : ReindexStats) : List Record → Work ReindexStats
  | [] => return stats
  | record :: rest => do
    let result ← Work.outcome (Work.atomically (reindexRecord r record))
    reindexRecords r (stats.add (result matches .error _)) rest

/-- Assigns the records after a place, page by page, for a number of pages at most. -/
def reindexPages (r : Recipe) (pageSize : Nat) (place : Option RecordId) (stats : ReindexStats) :
    Nat → Work ReindexStats
  | 0 => return stats
  | pages + 1 => do
    let page ← Work.query (·.pageRecords place pageSize)
    match page.getLast? with
    | none => return stats
    | some last =>
      let stats ← reindexRecords r stats page
      reindexPages r pageSize (some last.id) stats pages

/-- Assigns all records. There are no more pages than records. -/
def reindexAll (r : Recipe) (pageSize : Nat) : Work ReindexStats := do
  reindexPages r pageSize none ⟨0, 0⟩ ((← get).tables.records.length + 1)

/-- Computes a match key anew, if there is one of that name. -/
def rebuild (access : Access) (handle : Handle) (config : String) (limit : Nat) (now : Datestamp) :
    Work (Option ReindexStats) := do
  match ← Work.query (·.matchKey? config) with
  | none => return none
  | some k =>
    let kept ← Work.method handle.tenant k
    let recipe : Recipe := ⟨now, k.id, kept.method, limit⟩
    let stats ← Work.transaction access (reindexAll recipe handle.pageSize)
    return some stats

end Clustering

end RecordLinkage
