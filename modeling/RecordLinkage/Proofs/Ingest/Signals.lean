import RecordLinkage.Proofs.Ingest.Traffic

/-!
# The signals of a flow

A producer is told to pause when the window is full, and to go on when at most half of it is in
flight. In between it keeps to what it was told last. So a flow remembers one thing besides the
number in flight, whether the producer is pausing, and three facts relate the two in every order of
events: not more than the window is in flight, the producer pauses while the window is full, and
while it pauses more than half of the window is in flight.

The last of them is why a batch ends well. When nothing is in flight nobody pauses, so every pause
that was asked for has been taken back before completion is signalled.
-/

namespace RecordLinkage

namespace Flow

/-- A pause and its end, so many times. -/
def cycles (n : ℕ) : List FlowSignal := (List.replicate n [.backpressure, .resume]).flatten

theorem cycles_succ (n : ℕ) : cycles (n + 1) = cycles n ++ [.backpressure, .resume] := by
  rw [cycles, List.replicate_succ', List.flatten_append, List.flatten_singleton, cycles]

/-! ## Pausing -/

/-- How the number in flight goes with pausing. -/
structure Held (f : Flow) : Prop where
  bounded : f.inFlight ≤ f.window
  full : f.inFlight = f.window → f.paused = true
  busy : f.paused = true → f.window / 2 < f.inFlight

/-- The producer was told to pause and to go on in turn, and last what it is doing. -/
def Alternates (f : Flow) : Prop :=
  ∃ n, f.signals = cycles n ++ if f.paused then [.backpressure] else []

variable {f : Flow}

theorem occupy_eq (hroom : f.inFlight < f.window) : f.occupy =
    if f.inFlight + 1 = f.window ∧ f.paused = false then
      { f with
        inFlight := f.inFlight + 1
        paused := true
        signals := f.signals ++ [.backpressure] }
    else { f with inFlight := f.inFlight + 1 } := by
  have hfull : f.window ≤ f.inFlight + 1 ↔ f.inFlight + 1 = f.window := by omega
  simp [occupy, signal, hfull]

theorem vacate_eq (f : Flow) : f.vacate =
    if f.inFlight - 1 ≤ f.window / 2 ∧ f.paused = true then
      { f with
        inFlight := f.inFlight - 1
        paused := false
        signals := f.signals ++ [.resume] }
    else { f with inFlight := f.inFlight - 1 } := by
  simp [vacate, signal]

theorem Held.occupy (h : f.Held) (hroom : f.inFlight < f.window) : f.occupy.Held := by
  rw [occupy_eq hroom]
  split_ifs with hfills
  · have hhalf : f.window / 2 < f.inFlight + 1 := by omega
    exact ⟨hfills.1.le, fun _ ↦ rfl, fun _ ↦ hhalf⟩
  · refine ⟨hroom, fun hfull ↦ ?_, fun hpaused ↦ (h.busy hpaused).trans (Nat.lt_succ_self _)⟩
    -- A producer that pauses already is not told again.
    exact eq_true_of_ne_false fun hpaused ↦ hfills ⟨hfull, hpaused⟩

theorem Held.vacate (h : f.Held) (hsome : 0 < f.inFlight) : f.vacate.Held := by
  have hbounded := h.bounded
  rw [vacate_eq]
  split_ifs with hdrains
  · have hnotFull : f.inFlight - 1 ≠ f.window := by omega
    exact ⟨by simp only; omega, fun hfull ↦ absurd hfull hnotFull, fun hpaused ↦ by cases hpaused⟩
  · refine ⟨by simp only; omega, fun hfull ↦ ?_, fun hpaused ↦ ?_⟩
    · simp only at hfull
      omega
    · exact not_le.mp fun hhalf ↦ hdrains ⟨hhalf, hpaused⟩

theorem Alternates.occupy (h : f.Alternates) (hroom : f.inFlight < f.window) :
    f.occupy.Alternates := by
  obtain ⟨n, hn⟩ := h
  rw [occupy_eq hroom]
  split_ifs with hfills
  · exact ⟨n, by rw [hn, hfills.2]; simp⟩
  · exact ⟨n, hn⟩

theorem Alternates.vacate (h : f.Alternates) : f.vacate.Alternates := by
  obtain ⟨n, hn⟩ := h
  rw [vacate_eq]
  split_ifs with hdrains
  · exact ⟨n + 1, by rw [hn, hdrains.2, cycles_succ]; simp⟩
  · exact ⟨n, hn⟩

/-- When nothing is in flight, every pause was taken back. -/
theorem Alternates.of_inFlight (h : f.Alternates) (hheld : f.Held) (hnone : f.inFlight = 0) :
    ∃ n, f.signals = cycles n := by
  obtain ⟨n, hn⟩ := h
  have hgoing : f.paused = false := by
    refine Bool.eq_false_iff.mpr fun hpaused ↦ ?_
    have := hheld.busy hpaused
    omega
  exact ⟨n, by rw [hn, hgoing]; simp⟩

end Flow

/-! ## The protocol -/

namespace Traffic

/-- What the producer is told by an event, in terms of how many are in flight. -/
def told (t : Traffic) : FlowEvent → List FlowSignal
  | .started _ =>
    if t.flow.inFlight + 1 = t.flow.window ∧ t.flow.paused = false then [.backpressure] else []
  | .left | .died _ =>
    if t.flow.inFlight - 1 ≤ t.flow.window / 2 ∧ t.flow.paused = true then [.resume] else []
  | .finished => [.complete]
  | .answered .. | .buried | .rejected .. => []

/-- What holds of a flow and its signals at every moment. -/
structure Regulated (window : ℕ) (t : Traffic) : Prop where
  window_eq : t.flow.window = max window 1
  occupied : t.flow.inFlight = t.running.length + t.leaving
  held : t.flow.Held
  alternating : t.isOver = false → t.flow.Alternates
  closing : t.isOver = true →
    t.running = [] ∧ t.leaving = 0 ∧ ∃ n, t.flow.signals = Flow.cycles n ++ [.complete]

theorem regulated_new (window : ℕ) : (new window).Regulated window where
  window_eq := rfl
  occupied := rfl
  held := by
    refine ⟨Nat.zero_le _, fun hfull ↦ ?_, fun hpaused ↦ by cases hpaused⟩
    have : 0 = max window 1 := hfull
    omega
  alternating := fun _ ↦ ⟨0, rfl⟩
  closing := fun hover ↦ by cases hover

/-- Counting changes nothing that the signals depend on. -/
theorem Regulated.count {window : ℕ} {t : Traffic} {f : Flow} {running : List Submission}
    {leaving : ℕ} (h : t.Regulated window) (hover : t.isOver = false)
    (hwindow : f.window = t.flow.window) (hinFlight : f.inFlight = t.flow.inFlight)
    (hpaused : f.paused = t.flow.paused) (hsignals : f.signals = t.flow.signals)
    (hsame : running.length + leaving = t.running.length + t.leaving) :
    Regulated window ⟨f, running, leaving, false⟩ where
  window_eq := hwindow.trans h.window_eq
  occupied := by rw [hinFlight, h.occupied, hsame]
  held := by
    obtain ⟨hbounded, hfull, hbusy⟩ := h.held
    constructor <;> simpa only [hwindow, hinFlight, hpaused]
  alternating := by
    intro _
    simpa only [Flow.Alternates, hpaused, hsignals] using h.alternating hover
  closing := fun hover ↦ by cases hover

/-- A submission takes a place. -/
theorem Regulated.occupy {window : ℕ} {f : Flow} {running : List Submission} {leaving : ℕ}
    (h : Regulated window ⟨f, running, leaving, false⟩) (hroom : f.inFlight < f.window)
    (s : Submission) : Regulated window ⟨f.occupy, running ++ [s], leaving, false⟩ where
  window_eq := by
    rw [Flow.occupy_eq hroom]
    split_ifs <;> exact h.window_eq
  occupied := by
    have hoccupied : f.inFlight = running.length + leaving := h.occupied
    have hone : f.occupy.inFlight = f.inFlight + 1 := by
      rw [Flow.occupy_eq hroom]
      split_ifs <;> rfl
    rw [hone, hoccupied, List.length_append, List.length_singleton]
    exact Nat.add_right_comm ..
  held := h.held.occupy hroom
  alternating := fun hopen ↦ (h.alternating hopen).occupy hroom
  closing := fun hover ↦ by cases hover

/-- A place becomes free. -/
theorem Regulated.vacate {window : ℕ} {f : Flow} {running running' : List Submission}
    {leaving leaving' : ℕ} (h : Regulated window ⟨f, running, leaving, false⟩)
    (hless : running.length + leaving = running'.length + leaving' + 1) :
    Regulated window ⟨f.vacate, running', leaving', false⟩ := by
  have hoccupied : f.inFlight = running.length + leaving := h.occupied
  refine ⟨?_, ?_, h.held.vacate ?_, fun hopen ↦ (h.alternating hopen).vacate, ?_⟩
  · rw [Flow.vacate_eq]
    split_ifs <;> exact h.window_eq
  · have hone : f.vacate.inFlight = f.inFlight - 1 := by
      rw [Flow.vacate_eq]
      split_ifs <;> rfl
    rw [hone, hoccupied, hless, Nat.add_sub_cancel]
  · simp only
    omega
  · exact fun hover ↦ by cases hover

variable {window : ℕ} {t t' : Traffic} {event : FlowEvent} {events : List FlowEvent}

/-- **One step**: what held of the flow and its signals still holds. -/
theorem Regulated.step (h : t.Regulated window) (hstep : Step t event t') :
    t'.Regulated window := by
  cases hstep with
  | start s hroom => exact h.occupy (of_decide_eq_true hroom) s
  | @answer f before after leaving s result =>
    have hsame : (before ++ after).length + (leaving + 1)
        = (before ++ s :: after).length + leaving := by
      rw [List.length_append, List.length_append, List.length_cons]
      omega
    cases result <;> exact h.count rfl rfl rfl rfl rfl hsame
  | leave => exact h.vacate (Nat.add_assoc ..).symm
  | @die f before after leaving s =>
    have hlost : Regulated window ⟨f.lose, before ++ s :: after, leaving, false⟩ :=
      h.count rfl rfl rfl rfl rfl rfl
    refine hlost.vacate ?_
    rw [List.length_append, List.length_append, List.length_cons]
    omega
  | bury => exact h.count rfl rfl rfl rfl rfl rfl
  | reject => exact h.count rfl rfl rfl rfl rfl rfl
  | finish =>
    obtain ⟨n, hn⟩ := (h.alternating rfl).of_inFlight h.held h.occupied
    refine ⟨h.window_eq, h.occupied, ⟨h.held.bounded, h.held.full, h.held.busy⟩, ?_, ?_⟩
    · exact fun hopen ↦ by cases hopen
    · exact fun _ ↦ ⟨rfl, rfl, n, congrArg (· ++ [FlowSignal.complete]) hn⟩

/-- **One step**: what the producer is told. -/
theorem signals_step (hstep : Step t event t') :
    t'.flow.signals = t.flow.signals ++ t.told event := by
  cases hstep with
  | start s hroom =>
    rw [Flow.occupy_eq (of_decide_eq_true hroom), told]
    split_ifs
    · rfl
    · exact (List.append_nil _).symm
  | answer s result => cases result <;> exact (List.append_nil _).symm
  | leave =>
    rw [Flow.vacate_eq, told]
    split_ifs
    · rfl
    · exact (List.append_nil _).symm
  | die s =>
    rw [Flow.vacate_eq, told, Flow.lose]
    split_ifs
    · rfl
    · exact (List.append_nil _).symm
  | bury => exact (List.append_nil _).symm
  | reject => exact (List.append_nil _).symm
  | finish => rfl

theorem Run.regulated (h : Run (.new window) events t) : t.Regulated window := by
  induction h with
  | nil => exact regulated_new window
  | snoc _ hstep ih => exact ih.step hstep

end Traffic

/-- A queue that was told to finish has done so as soon as nothing is in flight. -/
theorem FlowQueue.Session.isSome_result {sink : Submission → Option Ending} {window : ℕ}
    {given : List FlowCommand} {ended : List Ending} {q : FlowQueue}
    (h : Session sink window given ended q) (hfinish : .finish ∈ given)
    (hflights : q.flights = []) : q.result.isSome = true := by
  obtain ⟨-, events, hdid⟩ := h.exists_run
  have hregulated := hdid.run.regulated
  have hnone : q.flow.inFlight = 0 := by
    rw [show q.flow.inFlight = _ from hregulated.occupied, traffic, hflights]
    rfl
  have hroom : q.flow.hasRoom = true := by
    have hwindow : q.flow.window = max window 1 := hregulated.window_eq
    rw [Flow.hasRoom, hnone, hwindow]
    exact decide_eq_true (by omega)
  have hdone : q.waiting = [] := by
    have hwaits := h.waits
    rw [Waits] at hwaits
    split at hwaits
    · assumption
    · rw [hroom] at hwaits
      cases hwaits
    · exact hwaits.elim
    · exact absurd hflights hwaits
  have hcommands := hdid.commands
  rw [hdone, List.append_nil] at hcommands
  rw [← hcommands] at hfinish
  obtain ⟨event, hevent, hcommand⟩ := List.mem_filterMap.mp hfinish
  cases event with
  | finished => exact hdid.run.isOver_iff.mpr hevent
  | _ => cases hcommand

/-- **The signals of a flow alternate.** In every order of events, the producer is told to pause
when a submission that starts fills the window, unless it pauses already, and to go on when one that
leaves brings the number in flight to half of the window or less, if it pauses. So it pauses
whenever the window is full, and while it pauses more than half of the window is in flight; the two
signals come in turn, the pause first. Completion is signalled once and last, after everything that
started has ended, with every pause taken back. What a queue of commands does is such an order of
events, and it completes as soon as it was told to finish and nothing is in flight. -/
theorem flow_signals_alternate (window : ℕ) :
    (∀ events t, Traffic.Run (.new window) events t → t.Regulated window ∧
      ∀ event t', Traffic.Step t event t' →
        t'.flow.signals = t.flow.signals ++ t.told event) ∧
    ∀ sink given ended q, FlowQueue.Session sink window given ended q →
      (∃ events, FlowQueue.Did window given (FlowQueue.EndsAs sink ended) q events) ∧
      (.finish ∈ given → q.flights = [] →
        ∃ n, q.flow.signals = Flow.cycles n ++ [.complete]) := by
  refine ⟨fun events t hrun ↦ ⟨hrun.regulated, fun event t' ↦ Traffic.signals_step⟩, ?_⟩
  intro sink given ended q h
  obtain ⟨-, events, hdid⟩ := h.exists_run
  refine ⟨⟨events, hdid⟩, fun hfinish hflights ↦ ?_⟩
  obtain ⟨-, -, hsignals⟩ := hdid.run.regulated.closing (h.isSome_result hfinish hflights)
  exact hsignals

open Sample in
/-- The window of two fills twice. -/
theorem session_signals_alternate :
    FlowQueue.Session slow 2 asked endings session ∧ .finish ∈ asked ∧ session.flights = [] ∧
      session.traffic.Regulated 2 ∧ session.flow.signals = Flow.cycles 2 ++ [.complete] := by
  obtain ⟨hruns, hsessions⟩ := flow_signals_alternate 2
  obtain ⟨⟨events, hdid⟩, hcompletes⟩ := hsessions slow asked endings session session_of_asked
  have hfinish : FlowCommand.finish ∈ asked := by simp [asked]
  have hflights : session.flights = [] := rfl
  obtain ⟨n, hn⟩ := hcompletes hfinish hflights
  refine ⟨session_of_asked, hfinish, hflights, (hruns events _ hdid.run).1, ?_⟩
  -- Five signals were given, so two of the pairs.
  have hlength := congrArg List.length hn
  have hfive : session.flow.signals.length = 5 := rfl
  simp [Flow.cycles, hfive] at hlength
  rw [hn, show n = 2 by omega]

end RecordLinkage
