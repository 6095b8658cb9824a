import RecordLinkage.Ingest.Flow

/-!
# Commands to a flow

The producer of a batch gives commands: accept a submission, reject one, finish. They are carried
out in the order in which they were given, and each of them completely before the next. An accept
waits while the window is full, a finish waits while anything is in flight, and all commands after
one that waits wait as well.

## What happens in one step

Whenever a command is given or a submission ends, everything that can happen does. First the
commands are carried out up to one that has to wait. Then those submissions end that the sink
answers at once, in the order in which they started. This repeats until nothing changes. A command
or a submission is used up each time, which bounds the number of rounds.
-/

namespace RecordLinkage

/-- What the producer of a batch asks for. -/
inductive FlowCommand where
  /-- Carry a submission out. -/
  | accept (s : Submission)
  /-- Count a submission that is refused. -/
  | reject (localId : Option String) (fault : Fault)
  /-- Wait for all submissions and sum up. -/
  | finish

/-- A submission in flight. -/
structure Flight where
  /-- How many submissions started before it. -/
  number : Nat
  submission : Submission

/-- A flow with its commands. -/
structure FlowQueue where
  flow : Flow
  /-- The commands that have not been carried out yet. -/
  waiting : List FlowCommand
  /-- The submissions in flight, in the order in which they started. -/
  flights : List Flight
  /-- How many submissions have started. -/
  started : Nat
  /-- The result, once the batch is finished. -/
  result : Option Summary

namespace FlowQueue

/-- Nothing has been asked for yet. -/
def new (window : Nat) : FlowQueue := ⟨Flow.new window, [], [], 0, none⟩

/-- Carries out an accept. -/
def launch (q : FlowQueue) (s : Submission) : FlowQueue :=
  { q with
    flow := q.flow.start
    flights := q.flights ++ [⟨q.started, s⟩]
    started := q.started + 1 }

/-- Carries out a finish. -/
def close (q : FlowQueue) : FlowQueue :=
  let flow := q.flow.close
  { q with flow, result := some flow.summary }

/-- Carries out commands up to the first one that has to wait. -/
def consume (q : FlowQueue) : List FlowCommand → FlowQueue
  | [] => { q with waiting := [] }
  | .accept s :: rest =>
    if q.flow.hasRoom then (q.launch s).consume rest
    else { q with waiting := .accept s :: rest }
  | .reject localId fault :: rest =>
    { q with flow := q.flow.reject localId fault }.consume rest
  | .finish :: rest =>
    if q.flights.isEmpty then q.close.consume rest
    else
      let flow := q.flow.reap
      { q with flow, waiting := .finish :: rest }

/-- Ends a flight. -/
def land (q : FlowQueue) (flight : Flight) (ending : Ending) : FlowQueue :=
  { q with
    flow := q.flow.finish flight.submission.localId ending
    flights := q.flights.filter fun other ↦ other.number ≠ flight.number }

/-- Ends the flights that the sink answers at once. -/
def landAnswered (q : FlowQueue) (sink : Submission → Option Ending) : FlowQueue :=
  q.flights.foldl (fun q flight ↦
    match sink flight.submission with
    | some ending => q.land flight ending
    | none => q) q

/-- Everything that can happen, in a number of rounds at most. -/
def settleFor (sink : Submission → Option Ending) (q : FlowQueue) : Nat → FlowQueue
  | 0 => q
  | rounds + 1 =>
    let q := q.consume q.waiting
    if q.flights.any fun flight ↦ (sink flight.submission).isSome then
      settleFor sink (q.landAnswered sink) rounds
    else q

/-- Everything that can happen. -/
def settle (q : FlowQueue) (sink : Submission → Option Ending) : FlowQueue :=
  settleFor sink q (q.waiting.length + q.flights.length + 1)

/-- The producer gives a command. -/
def give (q : FlowQueue) (sink : Submission → Option Ending) (c : FlowCommand) : FlowQueue :=
  { q with waiting := q.waiting ++ [c] }.settle sink

/-- A flight ends, if there is one of that number. -/
def release (q : FlowQueue) (sink : Submission → Option Ending) (number : Nat) (ending : Ending) :
    FlowQueue :=
  match q.flights.find? fun flight ↦ flight.number = number with
  | some flight => (q.land flight ending).settle sink
  | none => q

end FlowQueue

end RecordLinkage
