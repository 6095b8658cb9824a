import RecordLinkage.Ingest.Summary

/-!
# The flow of a batch

Submissions of a batch are carried out side by side, but only so many at a time: the window. A flow
keeps account of them. It counts those that are in flight, tells the producer when to pause and when
to go on, and adds up what became of each.

## Signals

The flow pauses when the window is full and resumes when half of it or less is in flight. Between
the two nothing is signalled, so that a producer is not told to stop and go for every single
submission.

## Submissions that die

A submission may end without an answer. Its place in the window becomes free at once, but it is
counted only later, when somebody looks after those that have ended: when the next submission
starts, or when the batch is finished.
-/

namespace RecordLinkage

/-- What a flow tells the producer. -/
inductive FlowSignal where
  /-- The window is full. -/
  | backpressure
  /-- There is room again. -/
  | resume
  | complete
  deriving DecidableEq, Repr

/-- How a submission ends. -/
inductive Ending where
  /-- With an answer. -/
  | answered (result : Except Fault Outcome)
  /-- Without one. -/
  | died

/-- The account of a batch. -/
structure Flow where
  /-- How many submissions may be in flight. -/
  window : Nat
  inFlight : Nat
  paused : Bool
  /-- How many submissions died and have not been counted yet. -/
  dead : Nat
  summary : Summary
  /-- What the producer was told, in order. -/
  signals : List FlowSignal

namespace Flow

/-- Nothing has started yet; a window of none counts as one. -/
def new (window : Nat) : Flow := ⟨max window 1, 0, false, 0, Summary.empty, []⟩

/-- Whether one more submission may start. -/
def hasRoom (f : Flow) : Bool := f.inFlight < f.window

/-- Tells the producer something. -/
def signal (f : Flow) (s : FlowSignal) : Flow := { f with signals := f.signals ++ [s] }

/-- Counts so many submissions as failed. -/
def countDead (s : Summary) : Nat → Summary
  | 0 => s
  | n + 1 => countDead (s.fail none .taskAborted) n

/-- Counts the submissions that died. -/
def reap (f : Flow) : Flow := { f with dead := 0, summary := countDead f.summary f.dead }

/-- One more submission is in flight. -/
def occupy (f : Flow) : Flow :=
  let f := { f with inFlight := f.inFlight + 1 }
  if f.window ≤ f.inFlight && !f.paused then { f with paused := true }.signal .backpressure else f

/-- One submission less is in flight. -/
def vacate (f : Flow) : Flow :=
  let f := { f with inFlight := f.inFlight - 1 }
  if f.inFlight ≤ f.window / 2 && f.paused then { f with paused := false }.signal .resume else f

/-- A submission starts. -/
def start (f : Flow) : Flow := f.reap.occupy

/-- A submission with that local identifier ends. -/
def finish (f : Flow) (localId : Option String) (ending : Ending) : Flow :=
  match ending with
  | .answered (.ok outcome) => { f with summary := f.summary.count outcome }.vacate
  | .answered (.error fault) => { f with summary := f.summary.fail localId fault }.vacate
  | .died => { f with dead := f.dead + 1 }.vacate

/-- A submission is refused before it starts. -/
def reject (f : Flow) (localId : Option String) (fault : Fault) : Flow :=
  { f with summary := f.summary.fail localId fault }

/-- The batch is finished. -/
def close (f : Flow) : Flow := f.reap.signal .complete

end Flow

end RecordLinkage
