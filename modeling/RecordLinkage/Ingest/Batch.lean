import RecordLinkage.Ingest.Flow
import RecordLinkage.Ingest.Ingester

/-!
# Ingesting a batch

A batch is a stream of JSON values, each of which should be a submission. One that is not is
rejected and counted. The submissions run through a flow, which lets so many of them start as the
window has room for. Those that have started are outstanding until they are carried out, each in a
transaction of its own.

## The order

Outstanding submissions race for the store, so it is not said which of them comes first. A schedule
says it for one run: before each value of the stream, and once more after the last one, it names
those that are carried out, in order. Whatever the schedule leaves behind in a full window or at the
end of the stream is carried out in the order in which it started. Two submissions are never carried
out at the same time, so a run amounts to an order of the submissions, and how far it can differ
from that of the stream depends on the window.

Where the stream is not JSON the batch ends with an error. What came before is carried out all the
same.
-/

namespace RecordLinkage

/-- What an observer of a batch sees. -/
structure Progress where
  phases : List String
  /-- How many values were handed on. -/
  records : Nat
  /-- How many times completion was signalled. -/
  completions : Nat
  /-- Whether the batch ended well. -/
  isDone : Bool
  deriving DecidableEq, Repr

namespace Progress

def nothing : Progress := ⟨[], 0, 0, false⟩

/-- The phase in which the match keys are looked up. -/
def loading : String := "Loading match keys"

/-- The phase in which submissions are carried out. -/
def ingesting : String := "Ingesting records"

end Progress

/-- What came of a batch, and what was seen of it. -/
structure BatchReport where
  progress : Progress
  /-- The summary, or why there is none. -/
  result : Except Fault Summary

/-- Which outstanding submissions are carried out next, when so many values were handed on. Each is
given by its place among those that are outstanding when its turn comes, the oldest first. A place
where there is none is passed over. -/
abbrev Schedule := Nat → List Nat

/-- Nobody is carried out before the window is full or the stream ends. -/
def Schedule.inOrder : Schedule := fun _ ↦ []

namespace Batch

/-- A batch in the middle of its stream. -/
structure State where
  flow : Flow
  /-- The submissions that have started and not ended, the oldest first. -/
  outstanding : List Submission
  /-- How many values were handed on. -/
  count : Nat

/-- Takes what is at the given places out of what waits, one after the other. -/
def pick : List Nat → List Submission → List Submission × List Submission
  | [], waiting => ([], waiting)
  | place :: rest, waiting =>
    match waiting[place]? with
    | none => pick rest waiting
    | some s =>
      let (picked, left) := pick rest (waiting.eraseIdx place)
      (s :: picked, left)

variable (i : Ingester) (now : Datestamp) (schedule : Schedule)

/-- Carries out submissions one after the other. -/
def carryOut (flow : Flow) : List Submission → Work Flow
  | [] => return flow
  | s :: rest => do
    let result ← Work.outcome (i.ingest now s)
    carryOut (flow.finish s.localId (.answered result)) rest

/-- Carries out some of what is outstanding, while the others are left. -/
def conclude (b : State) (picked left : List Submission) : Work State := do
  let flow ← carryOut i now b.flow picked
  return { b with flow, outstanding := left }

/-- Carries out those whose turn it is. -/
def release (b : State) : Work State :=
  let (picked, left) := pick (schedule b.count) b.outstanding
  conclude i now b picked left

/-- Carries out all that is outstanding. -/
def drain (b : State) : Work State := conclude i now b b.outstanding []

/-- The local identifier that a value gives, submission or not. -/
def givenLocalId (v : Json) : Option String := (v.get? "localId").bind Json.string?

/-- Hands one value on. -/
def take (b : State) (v : Json) : Work State := do
  let b := { b with count := b.count + 1 }
  match Submission.ofJson v with
  | .error fault => return { b with flow := b.flow.reject (givenLocalId v) fault }
  | .ok s =>
    let b ← if b.flow.hasRoom then pure b else drain i now b
    return { b with flow := b.flow.start, outstanding := b.outstanding ++ [s] }

/-- Carries out those whose turn it is, and hands one value on. -/
def next (b : State) (v : Json) : Work State := do take i now (← release i now schedule b) v

/-- Hands on values one after the other. -/
def takeAll (b : State) : List Json → Work State
  | [] => return b
  | v :: rest => do takeAll (← next i now schedule b v) rest

/-- Carries out all that is outstanding, those whose turn it is first. -/
def finish (b : State) : Work State := do drain i now (← release i now schedule b)

/-- Runs a stream of values through a flow. -/
def run (window : Nat) (values : List Json) : Work State := do
  let b ← takeAll i now schedule ⟨Flow.new window, [], 0⟩ values
  let b ← finish i now schedule b
  return { b with flow := b.flow.close }

/-- The failure of a stream that breaks off after some values. -/
def brokenStream (count : Nat) : Fault :=
  .parse ("invalid JSON after " ++ Number.natText count ++ " records")

private def completions (flow : Flow) : Nat := flow.signals.count .complete

/-- What came of a stream that has run through. -/
def report (b : State) (isComplete : Bool) : BatchReport where
  progress := ⟨[Progress.loading, Progress.ingesting], b.count, completions b.flow, isComplete⟩
  result := if isComplete then .ok b.flow.summary else .error (brokenStream b.count)

end Batch

def ingestBatch (access : Access) (tenant : TenantId) (request : IngestRequest)
    (settings : IngestSettings) (schedule : Schedule) (now : Datestamp) (input : List Char) :
    Work BatchReport := do
  match ← Work.outcome (Ingester.create access tenant request settings) with
  | .error fault => return ⟨⟨[Progress.loading], 0, 0, false⟩, .error fault⟩
  | .ok i =>
    let stream := Json.readStream input
    let b ← Batch.run i now schedule settings.window stream.values
    return Batch.report b stream.isComplete

end RecordLinkage
