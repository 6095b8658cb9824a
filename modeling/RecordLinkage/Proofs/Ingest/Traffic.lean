import RecordLinkage.Ingest.Queue
import RecordLinkage.Proofs.Ingest.Sequence

/-!
# Traffic through a flow

Submissions start, are answered and leave their places, or die; others are refused; the dead are
counted, and at last the batch is finished. In which order this happens is not up to the flow: it
depends on the producer, on what the submissions have to wait for and on who is given a turn.
`Traffic.Run` is every order that a flow may see.

## The grain

A submission that is answered is counted first and leaves its place afterwards, and anything may
happen in between. One that dies leaves its place at once, and is counted at any time after that,
each of the dead by itself. The places and the signals change in one step.

## Queues

A queue of commands is coarser: it carries a command out completely, lets a submission be counted
and leave together, and looks after all of the dead whenever it looks after any. Whatever is asked
of a queue, and however its sink answers, is a run: see `FlowQueue.Session.exists_run`.
-/

namespace RecordLinkage

/-! ## Events -/

/-- What happens to a flow. -/
inductive FlowEvent where
  /-- A submission starts. -/
  | started (s : Submission)
  /-- A submission in flight is answered, and counted. -/
  | answered (s : Submission) (result : Except Fault Outcome)
  /-- A submission that was answered leaves its place. -/
  | left
  /-- A submission in flight dies and leaves its place. -/
  | died (s : Submission)
  /-- A submission that died is counted. -/
  | buried
  /-- A submission is refused, and counted. -/
  | rejected (localId : Option String) (fault : Fault)
  /-- The batch is finished. -/
  | finished

namespace FlowEvent

/-- The command that an event carries out. -/
def command? : FlowEvent → Option FlowCommand
  | started s => some (.accept s)
  | rejected localId fault => some (.reject localId fault)
  | finished => some .finish
  | answered .. | left | died _ | buried => none

/-- The submission that an event ends, and how. -/
def ending? : FlowEvent → Option (Submission × Ending)
  | answered s result => some (s, .answered result)
  | died s => some (s, .died)
  | started _ | left | buried | rejected .. | finished => none

end FlowEvent

/-! ## Steps -/

namespace Flow

/-- Counts a submission with that answer. -/
def note (f : Flow) (localId : Option String) : Except Fault Outcome → Flow
  | .ok outcome => { f with summary := f.summary.count outcome }
  | .error fault => { f with summary := f.summary.fail localId fault }

/-- A submission dies, which nobody has noticed yet. -/
def lose (f : Flow) : Flow := { f with dead := f.dead + 1 }

/-- Counts one of the dead. -/
def bury (f : Flow) : Flow :=
  { f with dead := f.dead - 1, summary := f.summary.fail none .taskAborted }

variable {f : Flow}

theorem finish_answered (localId : Option String) (result : Except Fault Outcome) :
    f.finish localId (.answered result) = (f.note localId result).vacate := by
  cases result <;> rfl

theorem finish_died (localId : Option String) : f.finish localId .died = f.lose.vacate := rfl

theorem reap_bury {n : ℕ} (h : f.dead = n + 1) : f.bury.reap = f.reap := by
  obtain ⟨window, inFlight, paused, dead, summary, signals⟩ := f
  obtain rfl : dead = n + 1 := h
  rfl

theorem dead_reap : f.reap.dead = 0 := rfl

end Flow

/-- A flow and what is in it. -/
structure Traffic where
  /-- The account. -/
  flow : Flow
  /-- The submissions in flight that have not been answered, in the order in which they started. -/
  running : List Submission
  /-- How many have been answered and not left their place yet. -/
  leaving : ℕ
  /-- Whether the batch is finished. -/
  isOver : Bool

namespace Traffic

/-- Nothing has started yet. -/
def new (window : ℕ) : Traffic := ⟨.new window, [], 0, false⟩

/-- What a flow allows to happen, and what comes of it. -/
inductive Step : Traffic → FlowEvent → Traffic → Prop where
  | start {f running leaving} (s : Submission) (hroom : f.hasRoom = true) :
      Step ⟨f, running, leaving, false⟩ (.started s) ⟨f.occupy, running ++ [s], leaving, false⟩
  | answer {f before after leaving} (s : Submission) (result : Except Fault Outcome) :
      Step ⟨f, before ++ s :: after, leaving, false⟩ (.answered s result)
        ⟨f.note s.localId result, before ++ after, leaving + 1, false⟩
  | leave {f running leaving} :
      Step ⟨f, running, leaving + 1, false⟩ .left ⟨f.vacate, running, leaving, false⟩
  | die {f before after leaving} (s : Submission) :
      Step ⟨f, before ++ s :: after, leaving, false⟩ (.died s)
        ⟨f.lose.vacate, before ++ after, leaving, false⟩
  | bury {f running leaving n} (hdead : f.dead = n + 1) :
      Step ⟨f, running, leaving, false⟩ .buried ⟨f.bury, running, leaving, false⟩
  | reject {f running leaving} (localId : Option String) (fault : Fault) :
      Step ⟨f, running, leaving, false⟩ (.rejected localId fault)
        ⟨f.reject localId fault, running, leaving, false⟩
  | finish {f} (hdead : f.dead = 0) :
      Step ⟨f, [], 0, false⟩ .finished ⟨f.signal .complete, [], 0, true⟩

/-- Events that happen one after the other. -/
inductive Run (t : Traffic) : List FlowEvent → Traffic → Prop where
  | nil : Run t [] t
  | snoc {events event t₁ t₂} (h : Run t events t₁) (hstep : Step t₁ event t₂) :
      Run t (events ++ [event]) t₂

namespace Run

variable {t t₁ t₂ : Traffic} {events more : List FlowEvent}

theorem append (h : Run t events t₁) (h' : Run t₁ more t₂) : Run t (events ++ more) t₂ := by
  induction h' with
  | nil => rw [List.append_nil]; exact h
  | snoc _ hstep ih => rw [← List.append_assoc]; exact ih.snoc hstep

/-- The dead are counted one by one until none is left. -/
theorem reap (f : Flow) (running : List Submission) (leaving : ℕ) :
    Run ⟨f, running, leaving, false⟩ (List.replicate f.dead .buried)
      ⟨f.reap, running, leaving, false⟩ := by
  induction hdead : f.dead generalizing f with
  | zero => rw [Flow.reap_of_dead hdead]; exact .nil
  | succ n ih =>
    have hbury : f.bury.dead = n := by rw [Flow.bury, hdead, Nat.add_sub_cancel]
    have hrun := ih f.bury hbury
    rw [Flow.reap_bury hdead] at hrun
    rw [List.replicate_succ, ← List.singleton_append]
    exact (Run.nil.snoc (.bury hdead)).append hrun

/-- Only the end of the batch ends it. -/
theorem isOver_iff {window : ℕ} (h : Run (.new window) events t) :
    t.isOver = true ↔ .finished ∈ events := by
  induction h with
  | nil => simp [new]
  | snoc _ hstep ih => cases hstep <;> simp_all

/-- Nothing is left when the batch is over. -/
theorem of_isOver {window : ℕ} (h : Run (.new window) events t) (hover : t.isOver = true) :
    t.running = [] ∧ t.leaving = 0 ∧ t.flow.dead = 0 := by
  cases h with
  | nil => cases hover
  | snoc _ hstep =>
    cases hstep with
    | finish hdead => exact ⟨rfl, rfl, hdead⟩
    | _ => cases hover

end Run

end Traffic

/-! ## Queues -/

namespace FlowQueue

/-- A queue that is used as it should be: commands are given and flights end, until the batch is
told to finish. `given` are the commands so far, `ended` the endings of flights that did not come
from the sink. -/
inductive Session (sink : Submission → Option Ending) (window : ℕ) :
    List FlowCommand → List Ending → FlowQueue → Prop where
  | new : Session sink window [] [] (.new window)
  | give {given ended q} (h : Session sink window given ended q) (hopen : .finish ∉ given)
      (c : FlowCommand) : Session sink window (given ++ [c]) ended (q.give sink c)
  | release {given ended q} (h : Session sink window given ended q) (number : ℕ)
      (ending : Ending) :
      Session sink window given (ended ++ [ending]) (q.release sink number ending)

/-- A submission ends as the sink answers it, or as it was ended from outside. -/
def EndsAs (sink : Submission → Option Ending) (ended : List Ending) (s : Submission)
    (ending : Ending) : Prop :=
  sink s = some ending ∨ ending ∈ ended

/-- Nothing is asked for after the batch was told to finish. -/
def FinishesLast (given : List FlowCommand) : Prop :=
  ∀ before after, given = before ++ .finish :: after → after = []

theorem finishesLast_concat {given : List FlowCommand} (h : .finish ∉ given) (c : FlowCommand) :
    FinishesLast (given ++ [c]) := by
  intro before after heq
  rcases List.eq_nil_or_concat after with rfl | ⟨after, last, rfl⟩
  · rfl
  · rw [List.concat_eq_append, ← List.cons_append, ← List.append_assoc] at heq
    obtain ⟨rfl, -⟩ := List.append_inj' heq rfl
    exact absurd (List.mem_append_right before (.head after)) h

/-- The traffic of a queue. Nobody who was answered keeps a place. -/
def traffic (q : FlowQueue) : Traffic :=
  ⟨q.flow, q.flights.map (·.submission), 0, q.result.isSome⟩

/-- What a queue has done is a run: of the commands that were given it has carried out those that do
not wait, the flights ended as they were told to, and the summary is that of the account. -/
structure Did (window : ℕ) (given : List FlowCommand) (told : Submission → Ending → Prop)
    (q : FlowQueue) (events : List FlowEvent) : Prop where
  run : Traffic.Run (.new window) events q.traffic
  commands : events.filterMap FlowEvent.command? ++ q.waiting = given
  told : ∀ p ∈ events.filterMap FlowEvent.ending?, told p.1 p.2
  result : ∀ summary, q.result = some summary → summary = q.flow.summary
  numbers : (q.flights.map (·.number)).Nodup
  started : ∀ flight ∈ q.flights, flight.number < q.started

/-- A flight is told from the others by its number. -/
theorem filter_number_ne {flights before after : List Flight} {flight : Flight}
    (hnumbers : (flights.map (·.number)).Nodup) (hsplit : flights = before ++ flight :: after) :
    (flights.filter fun other ↦ other.number ≠ flight.number) = before ++ after := by
  rw [hsplit, List.map_append, List.map_cons, List.nodup_append, List.nodup_cons] at hnumbers
  obtain ⟨-, ⟨hafter, -⟩, hbefore⟩ := hnumbers
  have hkeep : ∀ other ∈ before ++ after, other.number ≠ flight.number := by
    intro other hother heq
    rcases List.mem_append.mp hother with hother | hother
    · exact hbefore _ (List.mem_map_of_mem hother) _ (.head _) heq
    · exact hafter (heq ▸ List.mem_map_of_mem hother)
  rw [hsplit, List.filter_append, List.filter_cons_of_neg (by simp), ← List.filter_append,
    List.filter_eq_self]
  exact fun other hother ↦ decide_eq_true (hkeep other hother)

namespace Did

variable {window : ℕ} {given : List FlowCommand} {told : Submission → Ending → Prop}
  {q q' : FlowQueue} {events : List FlowEvent}

theorem start (window : ℕ) (told : Submission → Ending → Prop) :
    Did window [] told (.new window) [] where
  run := .nil
  commands := rfl
  told := by simp
  result := by simp [FlowQueue.new]
  numbers := List.nodup_nil
  started := by simp [FlowQueue.new]

/-- A queue goes on as its traffic does. -/
theorem extend (h : Did window given told q events) (more : List FlowEvent)
    (hrun : Traffic.Run q.traffic more q'.traffic)
    (hcommands : more.filterMap FlowEvent.command? ++ q'.waiting = q.waiting)
    (htold : ∀ p ∈ more.filterMap FlowEvent.ending?, told p.1 p.2)
    (hresult : ∀ summary, q'.result = some summary → summary = q'.flow.summary)
    (hnumbers : (q'.flights.map (·.number)).Nodup)
    (hstarted : ∀ flight ∈ q'.flights, flight.number < q'.started) :
    Did window given told q' (events ++ more) where
  run := h.run.append hrun
  commands := by rw [List.filterMap_append, List.append_assoc, hcommands, h.commands]
  told := by
    intro p hp
    rw [List.filterMap_append, List.mem_append] at hp
    exact hp.elim (h.told p) (htold p)
  result := hresult
  numbers := hnumbers
  started := hstarted

/-- A queue that still has something to carry out, or to wait for, is not finished. The commands
end with the finish, so none waits behind it. -/
theorem result_eq_none (h : Did window given told q events)
    (hlast : FinishesLast given)
    (hbusy : q.waiting ≠ [] ∨ q.flights ≠ []) : q.result = none := by
  by_contra hsome
  have hover : q.traffic.isOver = true := Option.isSome_iff_ne_none.mpr hsome
  rcases hbusy with hwaiting | hflights
  · have hmem : FlowCommand.finish ∈ events.filterMap FlowEvent.command? :=
      List.mem_filterMap.mpr ⟨.finished, h.run.isOver_iff.mp hover, rfl⟩
    obtain ⟨before, after, hsplit⟩ := List.append_of_mem hmem
    have hgiven := h.commands
    rw [hsplit, List.append_assoc, List.cons_append] at hgiven
    exact hwaiting (List.append_eq_nil_iff.mp (hlast before _ hgiven.symm)).2
  · exact hflights (List.map_eq_nil_iff.mp (h.run.of_isOver hover).1)

/-- A submission is launched after the dead have been counted. -/
theorem launch {s : Submission} {rest : List FlowCommand} (h : Did window given told q events)
    (hopen : q.result = none) (hwaiting : q.waiting = .accept s :: rest)
    (hroom : q.flow.hasRoom = true) :
    ∃ events', Did window given told { q.launch s with waiting := rest } events' := by
  refine ⟨_, h.extend (List.replicate q.flow.dead .buried ++ [.started s]) ?_ ?_ ?_ ?_ ?_
    ?_⟩
  · simp only [traffic, FlowQueue.launch, hopen, Option.isSome_none, List.map_append,
      List.map_cons, List.map_nil]
    exact (Traffic.Run.reap q.flow _ 0).snoc (.start s hroom)
  · rw [hwaiting]
    simp [FlowEvent.command?]
  · simp [FlowEvent.ending?]
  · simp [FlowQueue.launch, hopen]
  · simp only [FlowQueue.launch, List.map_append, List.map_cons, List.map_nil]
    refine List.nodup_append.mpr ⟨h.numbers, List.pairwise_singleton _ _, ?_⟩
    intro number hnumber other hother
    obtain ⟨flight, hflight, rfl⟩ := List.mem_map.mp hnumber
    rw [List.mem_singleton] at hother
    exact hother ▸ (h.started flight hflight).ne
  · intro flight hflight
    rcases List.mem_append.mp hflight with hold | hnew
    · exact (h.started flight hold).trans (Nat.lt_succ_self _)
    · rw [List.mem_singleton.mp hnew]
      exact Nat.lt_succ_self _

/-- Commands are carried out up to the first one that has to wait. -/
theorem consume (hlast : FinishesLast given)
    (commands : List FlowCommand)
    (h : Did window given told { q with waiting := commands } events) :
    ∃ events', Did window given told (q.consume commands) events' := by
  induction commands generalizing q events with
  | nil => exact ⟨events, h⟩
  | cons c rest ih =>
    have hopen : q.result = none := h.result_eq_none hlast (.inl (List.cons_ne_nil _ _))
    cases c with
    | accept s =>
      rw [FlowQueue.consume]
      split_ifs with hroom
      · obtain ⟨events', h'⟩ := h.launch hopen rfl hroom
        exact ih h'
      · exact ⟨events, h⟩
    | reject localId fault =>
      rw [FlowQueue.consume]
      refine ih (h.extend [.rejected localId fault] ?_ rfl ?_ ?_ h.numbers h.started)
      · simp only [traffic, hopen, Option.isSome_none]
        exact Traffic.Run.nil.snoc (.reject localId fault)
      · simp [FlowEvent.ending?]
      · simp [hopen]
    | finish =>
      rw [FlowQueue.consume]
      split_ifs with hempty
      · have hnone : q.flights = [] := List.isEmpty_iff.mp hempty
        refine ih (h.extend (List.replicate q.flow.dead .buried ++ [.finished]) ?_ ?_ ?_
          ?_ h.numbers h.started)
        · simp only [traffic, FlowQueue.close, hopen, Option.isSome_none, Option.isSome_some, hnone,
            List.map_nil]
          exact (Traffic.Run.reap q.flow [] 0).snoc (.finish Flow.dead_reap)
        · simp [FlowEvent.command?]
        · simp [FlowEvent.ending?]
        · intro summary hsummary
          exact (Option.some.inj hsummary).symm
      · refine ⟨_, h.extend (List.replicate q.flow.dead .buried) ?_ ?_ ?_ ?_ h.numbers
          h.started⟩
        · simp only [traffic, hopen, Option.isSome_none]
          exact Traffic.Run.reap q.flow _ 0
        · simp [FlowEvent.command?]
        · simp [FlowEvent.ending?]
        · simp [hopen]

/-- A flight ends: it is counted and leaves, or it dies. -/
theorem land {flight : Flight} {ending : Ending} (h : Did window given told q events)
    (hlast : FinishesLast given)
    (hflight : flight ∈ q.flights) (htold : told flight.submission ending) :
    ∃ events', Did window given told (q.land flight ending) events' := by
  have hopen : q.result = none :=
    h.result_eq_none hlast (.inr (List.ne_nil_of_mem hflight))
  obtain ⟨before, after, hsplit⟩ := List.append_of_mem hflight
  have hothers : (q.flights.filter fun other ↦ other.number ≠ flight.number) = before ++ after :=
    filter_number_ne h.numbers hsplit
  have hsub : (before ++ after).Sublist q.flights := by
    rw [hsplit]
    exact (List.sublist_cons_self ..).append_left _
  have hnumbers : ((before ++ after).map (·.number)).Nodup := h.numbers.sublist (hsub.map _)
  have hstarted : ∀ other ∈ before ++ after, other.number < q.started :=
    fun other hother ↦ h.started other (hsub.subset hother)
  cases ending with
  | answered result =>
    refine ⟨_, h.extend [.answered flight.submission result, .left] ?_ rfl ?_ ?_ ?_ ?_⟩
    · simp only [traffic, FlowQueue.land, hopen, Option.isSome_none, hothers, Flow.finish_answered]
      rw [hsplit, List.map_append, List.map_append, List.map_cons]
      exact (Traffic.Run.nil.snoc (.answer flight.submission result)).snoc .leave
    · simpa [FlowEvent.ending?] using htold
    · simp [FlowQueue.land, hopen]
    · rw [FlowQueue.land, hothers]
      exact hnumbers
    · rw [FlowQueue.land, hothers]
      exact hstarted
  | died =>
    refine ⟨_, h.extend [.died flight.submission] ?_ rfl ?_ ?_ ?_ ?_⟩
    · simp only [traffic, FlowQueue.land, hopen, Option.isSome_none, hothers, Flow.finish_died]
      rw [hsplit, List.map_append, List.map_append, List.map_cons]
      exact Traffic.Run.nil.snoc (.die flight.submission)
    · simpa [FlowEvent.ending?] using htold
    · simp [FlowQueue.land, hopen]
    · rw [FlowQueue.land, hothers]
      exact hnumbers
    · rw [FlowQueue.land, hothers]
      exact hstarted

/-- The flights that the sink answers at once end one after the other. -/
theorem landAnswered {sink : Submission → Option Ending}
    (hlast : FinishesLast given)
    (hsink : ∀ s ending, sink s = some ending → told s ending) (flights : List Flight)
    (h : Did window given told q events) (hmem : ∀ flight ∈ flights, flight ∈ q.flights)
    (hnumbers : (flights.map (·.number)).Nodup) :
    ∃ events', Did window given told (flights.foldl (fun q flight ↦
      match sink flight.submission with
      | some ending => q.land flight ending
      | none => q) q) events' := by
  induction flights generalizing q events with
  | nil => exact ⟨events, h⟩
  | cons flight rest ih =>
    rw [List.foldl_cons]
    rw [List.map_cons, List.nodup_cons] at hnumbers
    rcases hanswer : sink flight.submission with _ | ending
    · exact ih h (fun other hother ↦ hmem other (.tail _ hother)) hnumbers.2
    · obtain ⟨events', h'⟩ := h.land hlast (hmem flight (.head _)) (hsink _ _ hanswer)
      refine ih h' (fun other hother ↦ ?_) hnumbers.2
      -- The flights have different numbers, so the others are still there.
      refine List.mem_filter.mpr ⟨hmem other (.tail _ hother), decide_eq_true ?_⟩
      intro heq
      exact hnumbers.1 (heq ▸ List.mem_map_of_mem hother)

/-- Whatever can happen in a queue is a run. -/
theorem settleFor {sink : Submission → Option Ending}
    (hlast : FinishesLast given)
    (hsink : ∀ s ending, sink s = some ending → told s ending) (rounds : ℕ)
    (h : Did window given told q events) :
    ∃ events', Did window given told (q.settleFor sink rounds) events' := by
  induction rounds generalizing q events with
  | zero => exact ⟨events, h⟩
  | succ rounds ih =>
    obtain ⟨events₁, h₁⟩ := consume hlast q.waiting h
    rw [FlowQueue.settleFor]
    split_ifs with hanswered
    · obtain ⟨events₂, h₂⟩ := landAnswered hlast hsink (q.consume q.waiting).flights h₁
        (fun _ hflight ↦ hflight) h₁.numbers
      exact ih h₂
    · exact ⟨events₁, h₁⟩

end Did

/-- **Whatever is asked of a queue, what it does is a run.** -/
theorem Session.exists_run {sink : Submission → Option Ending} {window : ℕ}
    {given : List FlowCommand} {ended : List Ending} {q : FlowQueue}
    (h : Session sink window given ended q) :
    FinishesLast given ∧ ∃ events, Did window given (EndsAs sink ended) q events := by
  induction h with
  | new => exact ⟨fun before after heq ↦ by simp at heq, [], .start window _⟩
  | @give given ended q h hopen c ih =>
    obtain ⟨-, events, hdid⟩ := ih
    have hlast := finishesLast_concat hopen c
    have hasked : Did window (given ++ [c]) (EndsAs sink ended)
        { q with waiting := q.waiting ++ [c] } events :=
      { hdid with commands := by rw [← List.append_assoc, hdid.commands] }
    exact ⟨hlast, Did.settleFor hlast (fun _ _ ↦ .inl) _ hasked⟩
  | @release given ended q h number ending ih =>
    obtain ⟨hlast, events, hdid⟩ := ih
    have hmore : Did window given (EndsAs sink (ended ++ [ending])) q events :=
      { hdid with told := fun p hp ↦ (hdid.told p hp).imp_right (List.mem_append_left _) }
    refine ⟨hlast, ?_⟩
    rw [FlowQueue.release]
    split
    · rename_i flight hfind
      obtain ⟨events', hlanded⟩ := hmore.land hlast (List.mem_of_find?_eq_some hfind)
        (.inr (List.mem_append_right _ (.head _)))
      exact Did.settleFor hlast (fun _ _ ↦ .inl) _ hlanded
    · exact ⟨events, hmore⟩

/-! ## Nothing waits without a reason -/

/-- An accept waits for a place, a finish for the flights, and all else for one of these. -/
def Waits (q : FlowQueue) : Prop :=
  match q.waiting with
  | [] => True
  | .accept _ :: _ => q.flow.hasRoom = false
  | .reject .. :: _ => False
  | .finish :: _ => q.flights ≠ []

theorem waits_consume (q : FlowQueue) (commands : List FlowCommand) :
    (q.consume commands).Waits := by
  induction commands generalizing q with
  | nil => trivial
  | cons c rest ih =>
    cases c with
    | accept s =>
      rw [consume]
      split_ifs with hroom
      · exact ih _
      · exact Bool.eq_false_iff.mpr hroom
    | reject localId fault => exact ih _
    | finish =>
      rw [consume]
      split_ifs with hempty
      · exact ih _
      · exact fun hnone ↦ hempty (List.isEmpty_iff.mpr hnone)

/-- What a queue can still use up: the commands that wait, and the flights. -/
def load (q : FlowQueue) : ℕ := q.waiting.length + q.flights.length

theorem load_consume_le (q : FlowQueue) (commands : List FlowCommand) :
    (q.consume commands).load ≤ commands.length + q.flights.length := by
  induction commands generalizing q with
  | nil => exact le_rfl
  | cons c rest ih =>
    cases c with
    | accept s =>
      have hlaunch : (q.launch s).flights.length = q.flights.length + 1 := by
        rw [launch, List.length_append, List.length_singleton]
      have hrest := ih (q.launch s)
      rw [consume, List.length_cons]
      split_ifs
      · omega
      · exact le_rfl
    | reject localId fault =>
      rw [consume, List.length_cons]
      exact (ih { q with flow := q.flow.reject localId fault }).trans
        (Nat.add_le_add_right (Nat.le_succ _) _)
    | finish =>
      rw [consume, List.length_cons]
      split_ifs
      · exact (ih q.close).trans (Nat.add_le_add_right (Nat.le_succ _) _)
      · exact le_rfl

section Answering

variable (sink : Submission → Option Ending)

/-- Ends a flight if the sink answers it. -/
def landIfAnswered (q : FlowQueue) (flight : Flight) : FlowQueue :=
  match sink flight.submission with
  | some ending => q.land flight ending
  | none => q

theorem load_landIfAnswered_le (q : FlowQueue) (flight : Flight) :
    (q.landIfAnswered sink flight).load ≤ q.load := by
  rw [landIfAnswered]
  split
  · exact Nat.add_le_add_left (List.length_filter_le ..) _
  · exact le_rfl

theorem load_foldl_le (flights : List Flight) (q : FlowQueue) :
    (flights.foldl (landIfAnswered sink) q).load ≤ q.load := by
  induction flights generalizing q with
  | nil => exact le_rfl
  | cons flight rest ih => exact (ih _).trans (load_landIfAnswered_le sink q flight)

/-- Where the sink answers a flight, there is one flight less. -/
theorem load_foldl_lt {flights : List Flight} {q : FlowQueue}
    (hmem : ∀ flight ∈ flights, flight ∈ q.flights)
    (hanswered : flights.any fun flight ↦ (sink flight.submission).isSome) :
    (flights.foldl (landIfAnswered sink) q).load < q.load := by
  induction flights with
  | nil => cases hanswered
  | cons flight rest ih =>
    rw [List.foldl_cons]
    rcases hanswer : sink flight.submission with _ | ending
    · rw [show q.landIfAnswered sink flight = q by rw [landIfAnswered, hanswer]]
      refine ih (fun other hother ↦ hmem other (.tail _ hother)) ?_
      rwa [List.any_cons, hanswer, Option.isSome_none, Bool.false_or] at hanswered
    · refine (load_foldl_le sink rest _).trans_lt ?_
      rw [landIfAnswered, hanswer]
      refine Nat.add_lt_add_left (List.length_filter_lt_length_iff_exists.mpr ?_) _
      exact ⟨flight, hmem flight (.head _), by simp⟩

/-- With rounds enough, a queue comes to rest. -/
theorem waits_settleFor {rounds : ℕ} {q : FlowQueue} (h : q.load < rounds) :
    (q.settleFor sink rounds).Waits := by
  induction rounds generalizing q with
  | zero => exact absurd h (Nat.not_lt_zero _)
  | succ rounds ih =>
    rw [settleFor]
    split_ifs with hanswered
    · have hless : ((q.consume q.waiting).landAnswered sink).load < (q.consume q.waiting).load :=
        load_foldl_lt sink (fun _ hflight ↦ hflight) hanswered
      have hle := load_consume_le q q.waiting
      apply ih
      rw [load] at h
      omega
    · exact waits_consume q q.waiting

end Answering

theorem Session.waits {sink : Submission → Option Ending} {window : ℕ} {given : List FlowCommand}
    {ended : List Ending} {q : FlowQueue} (h : Session sink window given ended q) : q.Waits := by
  induction h with
  | new => trivial
  | give => exact waits_settleFor _ (Nat.lt_succ_self _)
  | @release given ended q h number ending ih =>
    rw [FlowQueue.release]
    split
    · exact waits_settleFor _ (Nat.lt_succ_self _)
    · exact ih

end FlowQueue

/-! ## A small session

Three submissions share a window of two. The first dies, so the third can start; one is refused. -/

namespace Sample

def paper (localId : String) : Submission := .store localId .null

/-- A sink that answers nothing of itself. -/
def slow : Submission → Option Ending := fun _ ↦ none

def asked : List FlowCommand :=
  [.accept (paper "a"), .accept (paper "b"), .accept (paper "c"),
    .reject (some "d") (.validation "malformed record"), .finish]

def endings : List Ending :=
  [.died, .answered (.ok .inserted), .answered (.error .locked)]

/-- First the commands are given, and then the flights end. -/
def session : FlowQueue :=
  let q := asked.foldl (FlowQueue.give · slow) (FlowQueue.new 2)
  let q := q.release slow 0 .died
  let q := q.release slow 2 (.answered (.ok .inserted))
  q.release slow 1 (.answered (.error .locked))

theorem session_of_asked : FlowQueue.Session slow 2 asked endings session := by
  have hasked : FlowQueue.Session slow 2 asked []
      (asked.foldl (FlowQueue.give · slow) (FlowQueue.new 2)) :=
    ((((FlowQueue.Session.new.give (by simp) _).give (by simp) _).give (by simp) _).give
      (by simp) _).give (by simp) _
  exact ((hasked.release 0 _).release 2 _).release 1 _

end Sample

end RecordLinkage
