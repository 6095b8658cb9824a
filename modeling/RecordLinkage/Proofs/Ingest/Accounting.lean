import Mathlib.Data.List.Induction
import RecordLinkage.Proofs.Ingest.Signals

/-!
# The account of a flow

A submission is counted in one of three places: where it is answered, where it is refused, or, if it
died, where somebody looks after the dead. When that happens depends on the order of events, and so
does the order of the failures. The numbers do not: each submission that was accepted ends once,
each of the dead is counted once, and the summary adds up.

The account is checked against the events themselves. What the summary says at any moment is what
has been counted so far, and the dead that wait are those that died and have not been counted. At
the end nobody waits.
-/

namespace RecordLinkage

namespace Ending

/-- What became of the submission, if it was answered well. -/
def outcome? : Ending → Option Outcome
  | answered (.ok outcome) => some outcome
  | answered (.error _) | died => none

/-- Whether there was no answer. -/
def isDeath : Ending → Bool
  | died => true
  | answered _ => false

end Ending

/-! ## What has happened -/

namespace FlowEvent

/-- The submission that starts. -/
def accepted? : FlowEvent → Option Submission
  | started s => some s
  | answered .. | left | died _ | buried | rejected .. | finished => none

/-- Whether a submission is refused. -/
def isRejection : FlowEvent → Bool
  | rejected .. => true
  | started _ | answered .. | left | died _ | buried | finished => false

/-- Whether one of the dead is counted. -/
def isBurial : FlowEvent → Bool
  | buried => true
  | started _ | answered .. | left | died _ | rejected .. | finished => false

/-- The failure that is counted. The dead did not say who they were. -/
def failure? : FlowEvent → Option Failure
  | answered s (.error fault) => some ⟨s.localId, fault.message⟩
  | rejected localId fault => some ⟨localId, fault.message⟩
  | buried => some ⟨none, Fault.taskAborted.message⟩
  | answered _ (.ok _) | started _ | left | died _ | finished => none

end FlowEvent

namespace Traffic

variable (events : List FlowEvent)

/-- The submissions that have started. -/
def accepted : List Submission := events.filterMap FlowEvent.accepted?

/-- The submissions that have ended, and how. -/
def endings : List (Submission × Ending) := events.filterMap FlowEvent.ending?

/-- What became of the submissions that were answered well. -/
def outcomes : List Outcome := (endings events).filterMap fun e ↦ e.2.outcome?

/-- The failures, in the order in which they were counted. -/
def failures : List Failure := events.filterMap FlowEvent.failure?

/-- A summary that accounts for all that has happened. -/
structure Accounted (s : Summary) : Prop where
  /-- Every submission that was accepted ended, and ended once. -/
  ended : (accepted events).Perm ((endings events).map (·.1))
  /-- Each of the dead was counted once. -/
  buried : events.countP (·.isBurial) = (endings events).countP (·.2.isDeath)
  processed : s.processed = (accepted events).length + events.countP (·.isRejection)
  processed_eq : s.processed = s.inserted + s.updated + s.deleted + s.ignored
  inserted : s.inserted = (outcomes events).count .inserted
  updated : s.updated = (outcomes events).count .updated
  deleted : s.deleted = (outcomes events).count .deleted
  ignored : s.ignored = (outcomes events).count .ignored + (failures events).length
  /-- Those fail that are not answered well, and those that are refused. -/
  failed : (failures events).length
    = (endings events).countP (·.2.outcome?.isNone) + events.countP (·.isRejection)
  /-- The first failures are kept. -/
  failures : s.failures = (failures events).take Summary.sampleLimit

end Traffic

/-! ## Sums -/

namespace Summary

/-- A summary of these outcomes and failures. -/
structure Sums (s : Summary) (outcomes : List Outcome) (failures : List Failure) : Prop where
  processed : s.processed = outcomes.length + failures.length
  inserted : s.inserted = outcomes.count .inserted
  updated : s.updated = outcomes.count .updated
  deleted : s.deleted = outcomes.count .deleted
  ignored : s.ignored = outcomes.count .ignored + failures.length
  failures : s.failures = failures.take sampleLimit

variable {s : Summary} {outcomes : List Outcome} {failures : List Failure}

theorem sums_empty : empty.Sums [] [] := ⟨rfl, rfl, rfl, rfl, rfl, rfl⟩

theorem Sums.count (h : s.Sums outcomes failures) (outcome : Outcome) :
    (s.count outcome).Sums (outcomes ++ [outcome]) failures := by
  obtain ⟨hprocessed, hinserted, hupdated, hdeleted, hignored, hfailures⟩ := h
  cases outcome <;> constructor <;> simp [Summary.count, *] <;> omega

theorem Sums.fail (h : s.Sums outcomes failures) (localId : Option String) (fault : Fault) :
    (s.fail localId fault).Sums outcomes (failures ++ [⟨localId, fault.message⟩]) := by
  obtain ⟨hprocessed, hinserted, hupdated, hdeleted, hignored, hfailures⟩ := h
  refine ⟨?_, hinserted, hupdated, hdeleted, ?_, ?_⟩
  · rw [Summary.fail, hprocessed, List.length_append, List.length_singleton, Nat.add_assoc]
  · rw [Summary.fail, hignored, List.length_append, List.length_singleton, Nat.add_assoc]
  · exact Keeps.fail hfailures localId fault

/-- Every outcome is one of four. -/
theorem length_outcomes (outcomes : List Outcome) : outcomes.length
    = outcomes.count .inserted + outcomes.count .updated + outcomes.count .deleted
      + outcomes.count .ignored := by
  induction outcomes with
  | nil => rfl
  | cons outcome rest ih =>
    cases outcome <;> simp [ih] <;> omega

end Summary

/-! ## The books -/

namespace Traffic

/-- What holds of the account at every moment. -/
structure Booked (events : List FlowEvent) (t : Traffic) : Prop where
  sums : t.flow.summary.Sums (outcomes events) (failures events)
  accepted : (accepted events).Perm (t.running ++ (endings events).map (·.1))
  dead : events.countP (·.isBurial) + t.flow.dead = (endings events).countP (·.2.isDeath)

variable {events : List FlowEvent} {event : FlowEvent} {t t' : Traffic}

theorem booked_new (window : ℕ) : Booked [] (new window) := ⟨Summary.sums_empty, .nil, rfl⟩

section Concat

variable (events : List FlowEvent) (event : FlowEvent)

theorem accepted_concat :
    Traffic.accepted (events ++ [event]) = Traffic.accepted events ++ event.accepted?.toList := by
  cases event <;> simp [Traffic.accepted, FlowEvent.accepted?]

theorem endings_concat :
    endings (events ++ [event]) = endings events ++ event.ending?.toList := by
  cases event <;> simp [endings, FlowEvent.ending?]

theorem failures_concat :
    failures (events ++ [event]) = failures events ++ event.failure?.toList := by
  rw [failures, List.filterMap_append, failures]
  rcases hfailure : event.failure? with _ | failure <;> simp [hfailure]

theorem outcomes_concat : outcomes (events ++ [event])
    = outcomes events ++ (event.ending?.bind fun e ↦ e.2.outcome?).toList := by
  rw [outcomes, endings_concat, List.filterMap_append, outcomes]
  rcases event.ending? with _ | e
  · rfl
  · rcases houtcome : e.2.outcome? with _ | outcome <;> simp [houtcome]

end Concat

/-- What is counted is in the sums. -/
theorem sums_step (hstep : Step t event t')
    (h : t.flow.summary.Sums (outcomes events) (failures events)) :
    t'.flow.summary.Sums (outcomes (events ++ [event])) (failures (events ++ [event])) := by
  rw [outcomes_concat, failures_concat]
  cases hstep with
  | start => rw [Flow.summary_occupy]; simpa [FlowEvent.ending?, FlowEvent.failure?] using h
  | @answer _ _ _ _ s result =>
    rcases result with fault | outcome
    · simpa [FlowEvent.ending?, FlowEvent.failure?, Ending.outcome?, Flow.note]
        using h.fail s.localId fault
    · simpa [FlowEvent.ending?, FlowEvent.failure?, Ending.outcome?, Flow.note]
        using h.count outcome
  | leave => rw [Flow.summary_vacate]; simpa [FlowEvent.ending?, FlowEvent.failure?] using h
  | die =>
    rw [Flow.summary_vacate]
    simpa [FlowEvent.ending?, FlowEvent.failure?, Ending.outcome?, Flow.lose] using h
  | bury => simpa [FlowEvent.ending?, FlowEvent.failure?, Flow.bury] using h.fail none .taskAborted
  | reject localId fault =>
    simpa [FlowEvent.ending?, FlowEvent.failure?, Flow.reject] using h.fail localId fault
  | finish => simpa [FlowEvent.ending?, FlowEvent.failure?, Flow.signal] using h

/-- A submission that ends is no longer in flight. -/
theorem perm_ended (s : Submission) (before after ended : List Submission) :
    (before ++ s :: after ++ ended).Perm (before ++ after ++ (ended ++ [s])) := by
  have hmiddle : (before ++ s :: after).Perm (s :: (before ++ after)) := List.perm_middle
  refine (hmiddle.append_right ended).trans ?_
  rw [List.cons_append, ← List.append_assoc]
  exact (List.perm_append_singleton s _).symm

/-- A submission that was accepted is in flight or has ended. -/
theorem accepted_step (hstep : Step t event t')
    (h : (Traffic.accepted events).Perm (t.running ++ (endings events).map (·.1))) :
    (Traffic.accepted (events ++ [event])).Perm
      (t'.running ++ (endings (events ++ [event])).map (·.1)) := by
  rw [accepted_concat, endings_concat, List.map_append]
  cases hstep with
  | start s =>
    refine (h.append_right [s]).trans ?_
    rw [List.append_assoc, List.append_assoc]
    exact (List.perm_append_comm.trans (by simp [FlowEvent.ending?])).append_left _
  | answer s result =>
    simpa [FlowEvent.accepted?, FlowEvent.ending?] using h.trans (perm_ended s ..)
  | die s => simpa [FlowEvent.accepted?, FlowEvent.ending?] using h.trans (perm_ended s ..)
  | _ => simpa [FlowEvent.accepted?, FlowEvent.ending?] using h

/-- One that has died is counted or waits for it. -/
theorem dead_step (hstep : Step t event t')
    (h : events.countP (·.isBurial) + t.flow.dead = (endings events).countP (·.2.isDeath)) :
    (events ++ [event]).countP (·.isBurial) + t'.flow.dead
      = (endings (events ++ [event])).countP (·.2.isDeath) := by
  rw [endings_concat, List.countP_append, List.countP_append, ← h]
  cases hstep with
  | start => rw [Flow.dead_occupy]; simp [FlowEvent.ending?, FlowEvent.isBurial]
  | @answer _ _ _ _ s result =>
    cases result <;> simp [FlowEvent.ending?, FlowEvent.isBurial, Ending.isDeath, Flow.note]
  | leave => rw [Flow.dead_vacate]; simp [FlowEvent.ending?, FlowEvent.isBurial]
  | die =>
    rw [Flow.dead_vacate]
    simp [FlowEvent.ending?, FlowEvent.isBurial, Ending.isDeath, Flow.lose, Nat.add_assoc]
  | bury hdead =>
    simp [FlowEvent.ending?, FlowEvent.isBurial, Flow.bury, hdead]
    omega
  | reject => simp [FlowEvent.ending?, FlowEvent.isBurial, Flow.reject]
  | finish => simp [FlowEvent.ending?, FlowEvent.isBurial, Flow.signal]

theorem Run.booked {window : ℕ} (h : Run (.new window) events t) : Booked events t := by
  induction h with
  | nil => exact booked_new window
  | snoc _ hstep ih =>
    exact ⟨sums_step hstep ih.sums, accepted_step hstep ih.accepted, dead_step hstep ih.dead⟩

/-- An event that counts something counts an answer, a refusal or one of the dead. -/
theorem length_counted (events : List FlowEvent) :
    (failures events).length + (endings events).countP (·.2.isDeath)
      = (endings events).countP (·.2.outcome?.isNone) + events.countP (·.isRejection)
        + events.countP (·.isBurial) := by
  induction events using List.reverseRecOn with
  | nil => rfl
  | append_singleton events event ih =>
    have hone : event.failure?.toList.length + event.ending?.toList.countP (·.2.isDeath)
        = event.ending?.toList.countP (·.2.outcome?.isNone) + [event].countP (·.isRejection)
          + [event].countP (·.isBurial) := by
      rcases event with s | ⟨s, fault | outcome⟩ | _ | s | _ | ⟨localId, fault⟩ | _ <;> rfl
    rw [failures_concat, endings_concat]
    simp only [List.length_append, List.countP_append]
    omega

/-- **At the end, the summary accounts for all that has happened.** -/
theorem Run.accounted {window : ℕ} (h : Run (.new window) events t) (hover : t.isOver = true) :
    Accounted events t.flow.summary := by
  obtain ⟨hsums, haccepted, hdead⟩ := h.booked
  obtain ⟨hrunning, -, hnobody⟩ := h.of_isOver hover
  rw [hrunning, List.nil_append] at haccepted
  rw [hnobody, Nat.add_zero] at hdead
  have hfailed := length_counted events
  have houtcomes : (outcomes events).length + (endings events).countP (·.2.outcome?.isNone)
      = (endings events).length := by
    rw [outcomes, List.length_filterMap_eq_countP,
      List.length_eq_countP_add_countP fun e ↦ e.2.outcome?.isSome]
    refine congrArg _ (List.countP_congr fun e _ ↦ ?_)
    rcases e.2.outcome? with _ | outcome <;> simp
  have hended : (Traffic.accepted events).length = (endings events).length := by
    rw [haccepted.length_eq, List.length_map]
  have hkinds := Summary.length_outcomes (outcomes events)
  have hprocessed := hsums.processed
  refine ⟨haccepted, hdead, ?_, ?_, hsums.inserted, hsums.updated, hsums.deleted, hsums.ignored, ?_,
    hsums.failures⟩
  · omega
  · rw [hsums.inserted, hsums.updated, hsums.deleted, hsums.ignored]
    omega
  · omega

end Traffic

/-- **A flow loses nothing and counts nothing twice.** Whatever the order of events, the summary of
a batch that is finished counts all submissions that were accepted or refused, each once: as what
became of them, or as a failure. Those that died are among the failures once each, whenever they
were looked after, and have no name; the first failures are kept as samples in the order in which
they were counted. A queue that was told to finish answers with such a summary when nothing is in
flight any more. -/
theorem flow_accounts_for_all (window : ℕ) :
    (∀ events t, Traffic.Run (.new window) events t → t.isOver = true →
      Traffic.Accounted events t.flow.summary) ∧
    ∀ sink given ended q, FlowQueue.Session sink window given ended q →
      (.finish ∈ given → q.flights = [] → q.result.isSome = true) ∧
      ∀ summary, q.result = some summary →
        ∃ events, FlowQueue.Did window given (FlowQueue.EndsAs sink ended) q events ∧
          Traffic.Accounted events summary := by
  refine ⟨fun events t hrun hover ↦ hrun.accounted hover, ?_⟩
  intro sink given ended q h
  refine ⟨h.isSome_result, fun summary hsummary ↦ ?_⟩
  obtain ⟨-, events, hdid⟩ := h.exists_run
  have hover : q.traffic.isOver = true := by
    rw [FlowQueue.traffic, hsummary]
    rfl
  rw [hdid.result summary hsummary]
  exact ⟨events, hdid, hdid.run.accounted hover⟩

open Sample in
/-- One of three submissions dies and is counted when the third starts, before the one that was
refused meanwhile. -/
theorem session_accounts_for_all : ∃ summary events,
    FlowQueue.Session slow 2 asked endings session ∧ session.result = some summary ∧
      Traffic.Accounted events summary ∧
      summary = ⟨4, 3, 1, 0, 0, [⟨none, Fault.taskAborted.message⟩,
        ⟨some "d", "validation error: malformed record"⟩, ⟨some "b", Fault.locked.message⟩]⟩ := by
  obtain ⟨-, hsessions⟩ := flow_accounts_for_all 2
  obtain ⟨hanswers, haccounted⟩ := hsessions slow asked endings session session_of_asked
  obtain ⟨summary, hsummary⟩ :=
    Option.isSome_iff_exists.mp (hanswers (by simp [asked]) rfl)
  obtain ⟨events, -, haccounted⟩ := haccounted summary hsummary
  refine ⟨summary, events, session_of_asked, hsummary, haccounted, ?_⟩
  exact Option.some.inj (hsummary.symm.trans rfl)

end RecordLinkage
