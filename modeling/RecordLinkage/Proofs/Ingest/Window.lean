import RecordLinkage.Proofs.Ingest.Accounting
import RecordLinkage.Proofs.Ingest.Permits

/-!
# The window of a flow

Not more submissions are in flight than the window has places, and no place is lost. However a
submission ends, its place is there for the next one, so that an accept which waits is waiting for
submissions that are really in flight, and as many of them as fit.

The submissions start in the order in which they were accepted. A queue need not remember this: it
numbers the submissions as they start, and the numbers are their positions among all that were
accepted.
-/

namespace RecordLinkage

/-- The submission that a command accepts. -/
def FlowCommand.accept? : FlowCommand → Option Submission
  | accept s => some s
  | reject .. | finish => none

namespace FlowQueue

variable {sink : Submission → Option Ending} {window : ℕ} {given : List FlowCommand}
  {ended : List Ending} {q : FlowQueue}

/-- The submissions that are accepted by commands. -/
def accepts (commands : List FlowCommand) : List Submission :=
  commands.filterMap FlowCommand.accept?

theorem accepts_concat (commands : List FlowCommand) (c : FlowCommand) :
    accepts (commands ++ [c]) = accepts commands ++ c.accept?.toList := by
  rw [accepts, List.filterMap_append, accepts]
  cases c <;> rfl

/-! ## The numbers of the flights -/

/-- The first of these submissions have started, the others wait, and a flight has the number of its
submission among them. -/
structure Numbered (asked : List Submission) (q : FlowQueue) : Prop where
  started_le : q.started ≤ asked.length
  waiting : asked.drop q.started = accepts q.waiting
  flights : ∀ flight ∈ q.flights, asked[flight.number]? = some flight.submission

variable {asked : List Submission}

/-- Who starts is the first of those that wait. -/
theorem Numbered.launch {s : Submission} {rest : List FlowCommand} (h : Numbered asked q)
    (hwaiting : q.waiting = .accept s :: rest) :
    Numbered asked { q.launch s with waiting := rest } := by
  have hdrop : asked.drop q.started = s :: accepts rest := by rw [h.waiting, hwaiting]; rfl
  have hnext : asked[q.started]? = some s := by
    rw [← List.head?_drop, hdrop, List.head?_cons]
  refine ⟨?_, ?_, ?_⟩
  · exact Nat.succ_le_of_lt (List.getElem?_eq_some_iff.mp hnext).1
  · change asked.drop (q.started + 1) = accepts rest
    rw [← List.drop_drop, hdrop, List.drop_succ_cons, List.drop_zero]
  · intro flight hflight
    rcases List.mem_append.mp hflight with hold | hnew
    · exact h.flights flight hold
    · rw [List.mem_singleton.mp hnew]
      exact hnext

/-- Commands are carried out in order. -/
theorem Numbered.consume (commands : List FlowCommand)
    (h : Numbered asked { q with waiting := commands }) : Numbered asked (q.consume commands) := by
  induction commands generalizing q with
  | nil => exact h
  | cons c rest ih =>
    cases c with
    | accept s =>
      rw [FlowQueue.consume]
      split_ifs
      · exact ih (h.launch rfl)
      · exact h
    | reject localId fault => exact ih ⟨h.started_le, h.waiting, h.flights⟩
    | finish =>
      rw [FlowQueue.consume]
      split_ifs
      · exact ih ⟨h.started_le, h.waiting, h.flights⟩
      · exact ⟨h.started_le, h.waiting, h.flights⟩

theorem Numbered.land (h : Numbered asked q) (flight : Flight) (ending : Ending) :
    Numbered asked (q.land flight ending) :=
  ⟨h.started_le, h.waiting, fun other hother ↦ h.flights other (List.mem_filter.mp hother).1⟩

theorem Numbered.landAnswered (h : Numbered asked q) :
    Numbered asked (q.landAnswered sink) := by
  rw [FlowQueue.landAnswered]
  refine List.foldlRecOn q.flights _ h fun q hq flight _ ↦ ?_
  split
  · exact hq.land flight _
  · exact hq

theorem Numbered.settleFor (rounds : ℕ) (h : Numbered asked q) :
    Numbered asked (q.settleFor sink rounds) := by
  induction rounds generalizing q with
  | zero => exact h
  | succ rounds ih =>
    rw [FlowQueue.settleFor]
    split_ifs
    · exact ih (h.consume q.waiting).landAnswered
    · exact h.consume q.waiting

/-- Who is accepted next waits behind all others. -/
theorem Numbered.give (h : Numbered asked q) (c : FlowCommand) :
    Numbered (asked ++ c.accept?.toList) (q.give sink c) := by
  refine Numbered.settleFor _ ⟨?_, ?_, ?_⟩
  · exact h.started_le.trans (by rw [List.length_append]; exact Nat.le_add_right _ _)
  · change (asked ++ c.accept?.toList).drop q.started = accepts (q.waiting ++ [c])
    rw [List.drop_append_of_le_length h.started_le, h.waiting, accepts_concat]
  · intro flight hflight
    have hold := h.flights flight hflight
    rwa [List.getElem?_append_left (List.getElem?_eq_some_iff.mp hold).1]

theorem Numbered.release (h : Numbered asked q) (number : ℕ) (ending : Ending) :
    Numbered asked (q.release sink number ending) := by
  rw [FlowQueue.release]
  split
  · exact Numbered.settleFor _ (h.land _ ending)
  · exact h

/-- **In every session, the submissions start in the order in which they were accepted.** -/
theorem Session.numbered (h : Session sink window given ended q) :
    Numbered (accepts given) q := by
  induction h with
  | new => exact ⟨le_rfl, rfl, fun flight hflight ↦ by cases hflight⟩
  | give _ _ c ih =>
    rw [accepts_concat]
    exact ih.give c
  | release _ number ending ih => exact ih.release number ending

/-- What started, in terms of what was accepted. -/
theorem Numbered.accepted_eq {told : Submission → Ending → Prop} {events : List FlowEvent}
    (h : Numbered (accepts given) q) (hdid : Did window given told q events) :
    Traffic.accepted events = (accepts given).take q.started := by
  have hevents : accepts (events.filterMap FlowEvent.command?) = Traffic.accepted events := by
    rw [accepts, List.filterMap_filterMap, Traffic.accepted]
    exact List.filterMap_congr fun event _ ↦ by cases event <;> rfl
  have hsplit : accepts given = Traffic.accepted events ++ accepts q.waiting := by
    rw [← hevents, ← hdid.commands, accepts, accepts, accepts, List.filterMap_append]
  have hstarted := h.started_le
  have hlengths := congrArg List.length hsplit
  have hdrops := congrArg List.length h.waiting
  rw [List.length_append] at hlengths
  rw [List.length_drop] at hdrops
  rw [hsplit, List.take_left' (by omega)]

/-! ## Waiting -/

theorem started_consume_le (commands : List FlowCommand) :
    q.started ≤ (q.consume commands).started := by
  induction commands generalizing q with
  | nil => exact le_rfl
  | cons c rest ih =>
    cases c with
    | accept s =>
      rw [consume]
      split_ifs
      · exact (Nat.le_succ _).trans (ih (q := q.launch s))
      · exact le_rfl
    | reject localId fault => exact ih (q := { q with flow := q.flow.reject localId fault })
    | finish =>
      rw [consume]
      split_ifs
      · exact ih (q := q.close)
      · exact le_rfl

theorem started_landAnswered : (q.landAnswered sink).started = q.started := by
  rw [landAnswered]
  refine List.foldlRecOn (motive := fun q' : FlowQueue ↦ q'.started = q.started) q.flights _ rfl
    fun q' hq' flight _ ↦ ?_
  split <;> exact hq'

theorem started_settleFor_le (rounds : ℕ) : q.started ≤ (q.settleFor sink rounds).started := by
  induction rounds generalizing q with
  | zero => exact le_rfl
  | succ rounds ih =>
    have hconsume := started_consume_le (q := q) q.waiting
    rw [settleFor]
    split_ifs
    · exact (hconsume.trans_eq started_landAnswered.symm).trans ih
    · exact hconsume

/-- An accept that finds room starts its submission. -/
theorem started_settle_lt {s : Submission} {rest : List FlowCommand}
    (hwaiting : q.waiting = .accept s :: rest) (hroom : q.flow.hasRoom = true) :
    q.started < (q.settle sink).started := by
  have hconsume : q.started < (q.consume q.waiting).started := by
    rw [hwaiting, consume, if_pos hroom]
    exact started_consume_le (q := q.launch s) rest
  rw [settle, settleFor]
  split_ifs
  · exact (hconsume.trans_eq started_landAnswered.symm).trans_le (started_settleFor_le _)
  · exact hconsume

/-- How many are in flight. -/
theorem Did.inFlight_eq {told : Submission → Ending → Prop} {events : List FlowEvent}
    (h : Did window given told q events) : q.flow.inFlight = q.flights.length := by
  have hoccupied : q.flow.inFlight = (q.flights.map (·.submission)).length :=
    h.run.regulated.occupied
  rw [hoccupied, List.length_map]

theorem Did.length_flights_le {told : Submission → Ending → Prop} {events : List FlowEvent}
    (h : Did window given told q events) : q.flights.length ≤ max window 1 := by
  have hbounded : q.flow.inFlight ≤ q.flow.window := h.run.regulated.held.bounded
  rwa [h.inFlight_eq, show q.flow.window = _ from h.run.regulated.window_eq] at hbounded

theorem Did.hasRoom_iff {told : Submission → Ending → Prop} {events : List FlowEvent}
    (h : Did window given told q events) :
    q.flow.hasRoom = true ↔ q.flights.length < max window 1 := by
  rw [Flow.hasRoom, decide_eq_true_iff, h.inFlight_eq,
    show q.flow.window = _ from h.run.regulated.window_eq]

/-- **An accept waits only while the window is full.** -/
theorem Session.full (h : Session sink window given ended q) {s : Submission}
    (hwaits : .accept s ∈ q.waiting) : q.flights.length = max window 1 := by
  obtain ⟨hlast, events, hdid⟩ := h.exists_run
  have hreason := h.waits
  have hgiven := hdid.commands
  have hcapped := hdid.length_flights_le
  rcases hq : q.waiting with - | ⟨c, rest⟩
  · rw [hq] at hwaits
    cases hwaits
  · rw [Waits, hq] at hreason
    rw [hq] at hwaits hgiven
    cases c with
    | accept first =>
      have hnoRoom := (not_congr hdid.hasRoom_iff).mp (Bool.not_eq_true _ ▸ hreason)
      omega
    | reject => exact hreason.elim
    | finish =>
      -- A finish is the last command, so nobody waits behind it.
      rw [hlast _ _ hgiven.symm] at hwaits
      rcases List.mem_singleton.mp hwaits with ⟨⟩

/-- **However a submission ends, the next one starts.** -/
theorem Session.admits (h : Session sink window given ended q) {s : Submission}
    {rest : List FlowCommand} (hwaiting : q.waiting = .accept s :: rest) {flight : Flight}
    (hflight : flight ∈ q.flights) (ending : Ending) :
    q.started < (q.release sink flight.number ending).started := by
  obtain ⟨hlast, events, hdid⟩ := h.exists_run
  have hcapped := hdid.length_flights_le
  rw [FlowQueue.release]
  split
  · rename_i other hother
    have hmem := List.mem_of_find?_eq_some hother
    have hmore : Did window given (fun _ _ ↦ True) q events :=
      { hdid with told := fun _ _ ↦ trivial }
    have htold : (fun _ _ ↦ True : Submission → Ending → Prop) other.submission ending := trivial
    obtain ⟨events', hlanded⟩ := hmore.land hlast hmem htold
    have hless : (q.land other ending).flights.length < q.flights.length :=
      List.length_filter_lt_length_iff_exists.mpr ⟨other, hmem, by simp⟩
    exact started_settle_lt (q := q.land other ending) hwaiting
      (hlanded.hasRoom_iff.mpr (hless.trans_le hcapped))
  · rename_i hnone
    exact absurd (decide_eq_true rfl) (List.find?_eq_none.mp hnone flight hflight)

/-- **A batch that was told to finish has finished as soon as nothing is in flight**, and not
before. -/
theorem Session.isSome_result_iff (h : Session sink window given ended q) :
    q.result.isSome = true ↔ .finish ∈ given ∧ q.flights = [] := by
  refine ⟨fun hsome ↦ ?_, fun ⟨hfinish, hflights⟩ ↦ h.isSome_result hfinish hflights⟩
  obtain ⟨-, events, hdid⟩ := h.exists_run
  have hnobody : q.flights.map (·.submission) = [] := (hdid.run.of_isOver hsome).1
  have hfinished : .finished ∈ events := hdid.run.isOver_iff.mp hsome
  refine ⟨?_, List.map_eq_nil_iff.mp hnobody⟩
  rw [← hdid.commands]
  exact List.mem_append_left _ (List.mem_filterMap.mpr ⟨_, hfinished, rfl⟩)

/-- What the window does to a queue. -/
structure Windowed (sink : Submission → Option Ending) (window : ℕ) (given : List FlowCommand)
    (ended : List Ending) (q : FlowQueue) : Prop where
  /-- Not more are in flight than the window has places. -/
  capped : q.flights.length ≤ max window 1
  /-- The flow knows how many. -/
  counted : q.flow.inFlight = q.flights.length
  /-- An accept waits only while the window is full. -/
  full : ∀ s, .accept s ∈ q.waiting → q.flights.length = max window 1
  /-- When any flight ends, the first accept that waits is carried out. -/
  admits : ∀ s rest, q.waiting = .accept s :: rest → ∀ flight ∈ q.flights, ∀ ending,
    q.started < (q.release sink flight.number ending).started
  /-- The submissions that were accepted have started in their order, each once, and the last of
  them wait. -/
  ordered : ∃ events, Did window given (EndsAs sink ended) q events ∧
    Traffic.accepted events = (accepts given).take q.started ∧
      accepts q.waiting = (accepts given).drop q.started
  /-- A flight is what was accepted at its number, -/
  numbered : ∀ flight ∈ q.flights, (accepts given)[flight.number]? = some flight.submission
  /-- and no two flights have the same. -/
  distinct : (q.flights.map (·.number)).Nodup
  /-- The batch is finished when it was told to and nothing is in flight. -/
  finishes : q.result.isSome = true ↔ .finish ∈ given ∧ q.flights = []

theorem Session.windowed (h : Session sink window given ended q) :
    q.Windowed sink window given ended := by
  obtain ⟨-, events, hdid⟩ := h.exists_run
  exact
    { capped := hdid.length_flights_le
      counted := hdid.inFlight_eq
      full := fun _ ↦ h.full
      admits := fun _ _ hwaiting _ hflight ↦ h.admits hwaiting hflight
      ordered := ⟨events, hdid, h.numbered.accepted_eq hdid, h.numbered.waiting.symm⟩
      numbered := h.numbered.flights
      distinct := hdid.numbers
      finishes := h.isSome_result_iff }

end FlowQueue

/-! ## The permits -/

/-- What the window does to submissions and their permits. -/
structure Admission.Windowed (window : ℕ) (events : List FlowEvent) (g : Admission) : Prop where
  /-- What happens is traffic. -/
  traffic : Traffic.Run (.new window) events g.traffic
  /-- Every permit is somewhere. -/
  balanced : g.Balanced window
  /-- The flow counts those that have not left their places, -/
  counted : g.traffic.flow.inFlight = g.traffic.running.length + g.traffic.leaving
  /-- and not more of them than there are places. -/
  capped : g.traffic.flow.inFlight ≤ max window 1
  /-- While fewer run than there are places, nobody who runs keeps an accept waiting. -/
  admits : g.traffic.isOver = false → g.admitted = none →
    g.traffic.running.length < max window 1 → ∀ s, ∃ more g',
      Run (new window) (events ++ more) g' ∧ (∀ e ∈ more, e = .left) ∧
        g'.traffic.running = g.traffic.running ∧ g'.admitted = some s

theorem Admission.Run.windowed {window : ℕ} {events : List FlowEvent} {g : Admission}
    (h : Run (new window) events g) : g.Windowed window events where
  traffic := h.traffic.1
  balanced := h.traffic.2
  counted := h.traffic.1.regulated.occupied
  capped := h.traffic.1.regulated.window_eq ▸ h.traffic.1.regulated.held.bounded
  admits := h.exists_admitted

/-- **The window is kept, and no place in it is lost.** In every order of events, a submission that
holds a permit finds room, no more submissions are in flight than the window has places, and every
permit is free or with somebody; so an accept waits only for submissions that run, and only while as
many run as there are places. All traffic can be had in this way. In a queue of commands the number
in flight is what the flow says it is, an accept waits only while the window is full, and is carried
out when any flight ends, with whatever ending; the submissions start in the order in which they
were accepted, each once, and the batch is finished when it was told to and nothing is in flight. -/
theorem window_never_leaks (window : ℕ) :
    (∀ events g, Admission.Run (.new window) events g → g.Windowed window events) ∧
    (∀ events t, Traffic.Run (.new window) events t →
      ∃ free, Admission.Run (.new window) events ⟨t, free, none, 0⟩) ∧
    ∀ sink given ended q, FlowQueue.Session sink window given ended q →
      q.Windowed sink window given ended :=
  ⟨fun _ _ h ↦ h.windowed, fun _ _ h ↦ Admission.exists_run_of_traffic h,
    fun _ _ _ _ h ↦ h.windowed⟩

/-! ## A full window -/

namespace Sample

/-- Three submissions were accepted, and one of them waits. -/
def full : FlowQueue :=
  (asked.take 3).foldl (FlowQueue.give · slow) (FlowQueue.new 2)

theorem session_of_full : FlowQueue.Session slow 2 (asked.take 3) [] full :=
  ((FlowQueue.Session.new.give (by simp) _).give (by simp) _).give (by simp) _

end Sample

open Sample in
/-- A submission waits behind two others, and when the first of these dies it starts. All of them
have their permits. -/
theorem full_window_never_leaks : ∃ events free,
    Admission.Run (.new 2) events ⟨full.traffic, free, none, 0⟩ ∧ free = 0 ∧
      full.waiting = [.accept (paper "c")] ∧ full.flights.length = 2 ∧ full.flow.inFlight = 2 ∧
        full.started < (full.release slow 0 .died).started := by
  obtain ⟨hpermits, hlifts, hsessions⟩ := window_never_leaks 2
  have hfull := hsessions slow (asked.take 3) [] full session_of_full
  have hwaiting : full.waiting = [.accept (paper "c")] := rfl
  obtain ⟨events, hdid, -, -⟩ := hfull.ordered
  obtain ⟨free, hfree⟩ := hlifts events full.traffic hdid.run
  have hlength : full.flights.length = 2 :=
    hfull.full (paper "c") (hwaiting ▸ List.mem_singleton_self _)
  have hbalanced : free + 0 + (2 + 0) + 0 = max 2 1 := (hpermits events _ hfree).balanced
  refine ⟨events, free, hfree, by omega, hwaiting, hlength, hfull.counted.trans hlength, ?_⟩
  exact hfull.admits (paper "c") [] hwaiting ⟨0, paper "a"⟩ (List.mem_cons_self ..) .died

end RecordLinkage
