import RecordLinkage.Proofs.Ingest.Signals

/-!
# The permits of a window

A flow has as many permits as its window has places. An accept takes one before its submission
starts, and holds it while it looks after the dead. A submission that has left its place gives its
permit back a moment later. So the number of permits that are free, the number in flight and the
submissions themselves say the same thing three times, and never quite at the same moment.

`Admission` is traffic at this grain. Nothing there asks whether the window has room: who holds a
permit starts. That there is room is a consequence of one equation, `Admission.Balanced`, which says
where all permits are. It goes both ways: what happens with permits is traffic, and all traffic can
be had with permits.

The equation also says that no permit is lost. As long as fewer submissions run than there are
places, an accept gets its permit without waiting for any of them.
-/

namespace RecordLinkage

namespace FlowEvent

/-- An event that only counts something. -/
def IsCount : FlowEvent → Prop
  | answered .. | buried | rejected .. => True
  | started _ | left | died _ | finished => False

end FlowEvent

/-- Traffic, and where the permits of the window are. -/
structure Admission where
  /-- The traffic. -/
  traffic : Traffic
  /-- How many permits nobody has. -/
  free : ℕ
  /-- The submission that has a permit and has not started yet. -/
  admitted : Option Submission
  /-- How many submissions have left their place and not given back their permit yet. -/
  returning : ℕ

namespace Admission

/-- Nothing has started yet, and all permits are free. -/
def new (window : ℕ) : Admission := ⟨.new window, max window 1, none, 0⟩

/-- What may happen with permits. The events of the traffic are named, the others are not seen. -/
inductive Step : Admission → Option FlowEvent → Admission → Prop where
  | take {f running leaving free returning} (s : Submission) :
      Step ⟨⟨f, running, leaving, false⟩, free + 1, none, returning⟩ none
        ⟨⟨f, running, leaving, false⟩, free, some s, returning⟩
  | start {f running leaving free returning} (s : Submission) :
      Step ⟨⟨f, running, leaving, false⟩, free, some s, returning⟩ (some (.started s))
        ⟨⟨f.occupy, running ++ [s], leaving, false⟩, free, none, returning⟩
  | leave {f running leaving free admitted returning} :
      Step ⟨⟨f, running, leaving + 1, false⟩, free, admitted, returning⟩ (some .left)
        ⟨⟨f.vacate, running, leaving, false⟩, free, admitted, returning + 1⟩
  | die {f before after leaving free admitted returning} (s : Submission) :
      Step ⟨⟨f, before ++ s :: after, leaving, false⟩, free, admitted, returning⟩ (some (.died s))
        ⟨⟨f.lose.vacate, before ++ after, leaving, false⟩, free, admitted, returning + 1⟩
  | giveBack {t free admitted returning} :
      Step ⟨t, free, admitted, returning + 1⟩ none ⟨t, free + 1, admitted, returning⟩
  | count {t t' event free admitted returning} (hstep : Traffic.Step t event t')
      (hcount : event.IsCount) :
      Step ⟨t, free, admitted, returning⟩ (some event) ⟨t', free, admitted, returning⟩
  | finish {f free} (hdead : f.dead = 0) :
      Step ⟨⟨f, [], 0, false⟩, free, none, 0⟩ (some .finished)
        ⟨⟨f.signal .complete, [], 0, true⟩, free, none, 0⟩

/-- Steps one after the other, with the events that are seen. -/
inductive Run (g : Admission) : List FlowEvent → Admission → Prop where
  | nil : Run g [] g
  | snoc {events event g₁ g₂} (h : Run g events g₁) (hstep : Step g₁ event g₂) :
      Run g (events ++ event.toList) g₂

/-- How many submissions hold a permit before they start: one or none. -/
def waiting (g : Admission) : ℕ := g.admitted.toList.length

/-- Every permit is free, with a submission that will start, with one in flight, or on its way
back. -/
def Balanced (window : ℕ) (g : Admission) : Prop :=
  g.free + g.waiting + (g.traffic.running.length + g.traffic.leaving) + g.returning = max window 1

variable {window : ℕ} {g g' : Admission} {event : Option FlowEvent} {events : List FlowEvent}

theorem balanced_new (window : ℕ) : (new window).Balanced window := rfl

/-- Counting moves nobody. -/
theorem length_of_count {t t' : Traffic} {event : FlowEvent} (hstep : Traffic.Step t event t')
    (hcount : event.IsCount) :
    t'.running.length + t'.leaving = t.running.length + t.leaving := by
  cases hstep with
  | answer s result =>
    simp only [List.length_append, List.length_cons]
    omega
  | bury | reject => rfl
  | start | leave | die | finish => exact hcount.elim

/-- **One step**: permits are moved, and none is lost or made. -/
theorem Balanced.step (h : g.Balanced window) (hstep : Step g event g') : g'.Balanced window := by
  cases hstep with
  | take s =>
    simp only [Balanced, waiting, Option.toList_none, Option.toList_some, List.length_nil,
      List.length_singleton] at h ⊢
    omega
  | start s =>
    simp only [Balanced, waiting, Option.toList_none, Option.toList_some, List.length_nil,
      List.length_singleton, List.length_append] at h ⊢
    omega
  | leave =>
    simp only [Balanced, waiting] at h ⊢
    omega
  | die s =>
    simp only [Balanced, waiting, List.length_append, List.length_cons] at h ⊢
    omega
  | giveBack =>
    simp only [Balanced, waiting] at h ⊢
    omega
  | count hstep hcount =>
    have hsame := length_of_count hstep hcount
    simp only [Balanced, waiting] at h ⊢
    omega
  | finish => exact h

/-- Who holds a permit finds room. -/
theorem Balanced.hasRoom {t : Traffic} {free returning : ℕ} {s : Submission}
    (h : Balanced window ⟨t, free, some s, returning⟩) (ht : t.Regulated window) :
    t.flow.hasRoom = true := by
  have hoccupied := ht.occupied
  have hwindow := ht.window_eq
  simp only [Balanced, waiting, Option.toList_some, List.length_singleton] at h
  rw [Flow.hasRoom]
  exact decide_eq_true (by omega)

/-- **What happens with permits is traffic**, and all permits are accounted for. -/
theorem Run.traffic (h : Run (new window) events g) :
    Traffic.Run (.new window) events g.traffic ∧ g.Balanced window := by
  induction h with
  | nil => exact ⟨.nil, balanced_new window⟩
  | @snoc events event g₁ g₂ _ hstep ih =>
    obtain ⟨hrun, hbalanced⟩ := ih
    refine ⟨?_, hbalanced.step hstep⟩
    cases hstep with
    | take | giveBack =>
      rw [Option.toList_none, List.append_nil]
      exact hrun
    | start s => exact hrun.snoc (.start s (hbalanced.hasRoom hrun.regulated))
    | leave => exact hrun.snoc .leave
    | die s => exact hrun.snoc (.die s)
    | count hstep => exact hrun.snoc hstep
    | finish hdead => exact hrun.snoc (.finish hdead)

/-- A permit that is free is taken. -/
theorem Run.take {f : Flow} {running : List Submission} {leaving free returning : ℕ}
    (h : Run (new window) events ⟨⟨f, running, leaving, false⟩, free + 1, none, returning⟩)
    (s : Submission) :
    Run (new window) events ⟨⟨f, running, leaving, false⟩, free, some s, returning⟩ := by
  have htake := h.snoc (.take s)
  rwa [Option.toList_none, List.append_nil] at htake

/-- A permit that is on its way back arrives. -/
theorem Run.giveBack {t : Traffic} {free returning : ℕ} {admitted : Option Submission}
    (h : Run (new window) events ⟨t, free, admitted, returning + 1⟩) :
    Run (new window) events ⟨t, free + 1, admitted, returning⟩ := by
  have hback := h.snoc .giveBack
  rwa [Option.toList_none, List.append_nil] at hback

/-- **All traffic can be had with permits**, and when it comes to rest nobody holds one who is not
in flight. -/
theorem exists_run_of_traffic {t : Traffic} (h : Traffic.Run (.new window) events t) :
    ∃ free, Run (new window) events ⟨t, free, none, 0⟩ := by
  induction h with
  | nil => exact ⟨max window 1, .nil⟩
  | @snoc events event t t' hrun hstep ih =>
    obtain ⟨free, ih⟩ := ih
    have hbalanced := ih.traffic.2
    cases hstep with
    | @start f running leaving s hroom =>
      -- There is room, so some permit is not in flight, and nobody else can have it.
      have hoccupied : f.inFlight = running.length + leaving := hrun.regulated.occupied
      have hwindow : f.window = max window 1 := hrun.regulated.window_eq
      have hless := of_decide_eq_true hroom
      simp only [Balanced, waiting, Option.toList_none, List.length_nil] at hbalanced
      obtain ⟨free, rfl⟩ : ∃ n, free = n + 1 := Nat.exists_eq_add_one.mpr (by omega)
      exact ⟨free, (ih.take s).snoc (.start s)⟩
    | answer s result => exact ⟨free, ih.snoc (.count (.answer s result) trivial)⟩
    | leave => exact ⟨free + 1, (ih.snoc .leave).giveBack⟩
    | die s => exact ⟨free + 1, (ih.snoc (.die s)).giveBack⟩
    | bury hdead => exact ⟨free, ih.snoc (.count (.bury hdead) trivial)⟩
    | reject localId fault => exact ⟨free, ih.snoc (.count (.reject localId fault) trivial)⟩
    | finish hdead => exact ⟨free, ih.snoc (.finish hdead)⟩

/-- **No permit is lost.** While fewer submissions run than there are places, an accept gets a
permit: one is free, or one of those that have ended gives its permit back. Nobody who runs is
waited for. -/
theorem Run.exists_admitted (h : Run (new window) events g) (hopen : g.traffic.isOver = false)
    (hnobody : g.admitted = none) (hless : g.traffic.running.length < max window 1)
    (s : Submission) : ∃ more g', Run (new window) (events ++ more) g' ∧
      (∀ e ∈ more, e = .left) ∧ g'.traffic.running = g.traffic.running ∧
        g'.admitted = some s := by
  obtain ⟨⟨f, running, leaving, isOver⟩, free, admitted, returning⟩ := g
  obtain rfl : isOver = false := hopen
  obtain rfl : admitted = none := hnobody
  have hbalanced := h.traffic.2
  simp only [Balanced, waiting, Option.toList_none, List.length_nil] at hbalanced hless
  rcases free with - | free
  · rcases returning with - | returning
    · obtain ⟨leaving, rfl⟩ : ∃ n, leaving = n + 1 := Nat.exists_eq_add_one.mpr (by omega)
      exact ⟨[.left], _, (h.snoc .leave).giveBack.take s, by simp, rfl, rfl⟩
    · have htake := h.giveBack.take s
      rw [← List.append_nil events] at htake
      exact ⟨[], _, htake, by simp, rfl, rfl⟩
  · have htake := h.take s
    rw [← List.append_nil events] at htake
    exact ⟨[], _, htake, by simp, rfl, rfl⟩

end Admission

end RecordLinkage
