import Mathlib.Algebra.BigOperators.Group.List.Basic
import Mathlib.Algebra.Group.Prod
import Mathlib.Tactic.Abel
import RecordLinkage.Proofs.Ingest.Schedule
import RecordLinkage.Proofs.Work

/-!
# A batch is a sequence

Outstanding submissions race for the store, but each of them has it for itself. So the store changes
as if they were carried out one after the other, in the order that the schedule and the window
determine. The summary is filled in yet another order, because what is no submission is counted at
once; but its numbers are sums, and do not depend on that. The failures depend on it only in their
order, and so in which of them are kept as samples.

`Ingester.carry` is the sequence without any window.
-/

namespace RecordLinkage

/-! ## Numbers -/

/-- The numbers of a summary: all submissions, and those ignored, inserted, updated, deleted. -/
abbrev Tally := ℕ × ℕ × ℕ × ℕ × ℕ

/-- What an outcome adds to a summary. -/
def Outcome.tally : Outcome → Tally
  | .inserted => (1, 0, 1, 0, 0)
  | .updated => (1, 0, 0, 1, 0)
  | .deleted => (1, 0, 0, 0, 1)
  | .ignored => (1, 1, 0, 0, 0)

/-- What a submission adds to a summary. One that fails counts as ignored. -/
def tallyOf : Except Fault Outcome → Tally
  | .ok outcome => outcome.tally
  | .error _ => Outcome.ignored.tally

namespace Summary

/-- The numbers of a summary. -/
def tally (s : Summary) : Tally := (s.processed, s.ignored, s.inserted, s.updated, s.deleted)

theorem tally_count (s : Summary) (outcome : Outcome) :
    (s.count outcome).tally = s.tally + outcome.tally := by
  cases outcome <;> rfl

theorem tally_fail (s : Summary) (localId : Option String) (fault : Fault) :
    (s.fail localId fault).tally = s.tally + Outcome.ignored.tally := rfl

/-- These failures have been counted, in this order, and the first of them are kept. -/
def Keeps (s : Summary) (failures : List Failure) : Prop :=
  s.failures = failures.take sampleLimit

variable {s : Summary} {failures : List Failure}

theorem Keeps.count (h : s.Keeps failures) (outcome : Outcome) :
    (s.count outcome).Keeps failures := by
  cases outcome <;> exact h

/-- There is room for a sample as long as all failures are kept. -/
theorem Keeps.fail (h : s.Keeps failures) (localId : Option String) (fault : Fault) :
    (s.fail localId fault).Keeps (failures ++ [⟨localId, fault.message⟩]) := by
  rw [Keeps] at h
  rw [Keeps, Summary.fail, h, List.length_take]
  split_ifs with hroom
  · rw [List.take_of_length_le (by omega), List.take_of_length_le (by simp; omega)]
  · rw [List.take_append_of_le_length (by omega)]

end Summary

/-- The failure that is counted for a submission, if it fails. -/
def Submission.failure? (s : Submission) : Except Fault Outcome → Option Failure
  | .ok _ => none
  | .error fault => some ⟨s.localId, fault.message⟩

namespace Flow

variable {f : Flow}

theorem summary_vacate (f : Flow) : f.vacate.summary = f.summary := by
  rw [vacate]
  split_ifs <;> rfl

theorem dead_vacate (f : Flow) : f.vacate.dead = f.dead := by
  rw [vacate]
  split_ifs <;> rfl

theorem summary_occupy (f : Flow) : f.occupy.summary = f.summary := by
  rw [occupy]
  split_ifs <;> rfl

theorem dead_occupy (f : Flow) : f.occupy.dead = f.dead := by
  rw [occupy]
  split_ifs <;> rfl

theorem room_vacate (f : Flow) :
    f.vacate.inFlight = f.inFlight - 1 ∧ f.vacate.window = f.window := by
  rw [vacate]
  split_ifs <;> exact ⟨rfl, rfl⟩

theorem room_occupy (f : Flow) :
    f.occupy.inFlight = f.inFlight + 1 ∧ f.occupy.window = f.window := by
  rw [occupy]
  split_ifs <;> exact ⟨rfl, rfl⟩

/-- Nobody died, so nobody is counted. -/
theorem reap_of_dead (h : f.dead = 0) : f.reap = f := by
  obtain ⟨window, inFlight, paused, dead, summary, signals⟩ := f
  obtain rfl : dead = 0 := h
  rfl

theorem summary_start (h : f.dead = 0) : f.start.summary = f.summary := by
  rw [start, reap_of_dead h, summary_occupy]

theorem dead_start (h : f.dead = 0) : f.start.dead = 0 := by
  rw [start, reap_of_dead h, dead_occupy, h]

/-- Room is taken by starting, and made by ending. -/
theorem room_start (f : Flow) :
    f.start.inFlight = f.inFlight + 1 ∧ f.start.window = f.window := f.reap.room_occupy

theorem room_finish (f : Flow) (localId : Option String) (result : Except Fault Outcome) :
    (f.finish localId (.answered result)).inFlight = f.inFlight - 1 ∧
      (f.finish localId (.answered result)).window = f.window := by
  rcases result with fault | outcome <;> exact room_vacate _

theorem tally_finish (f : Flow) (localId : Option String) (result : Except Fault Outcome) :
    (f.finish localId (.answered result)).summary.tally = f.summary.tally + tallyOf result ∧
      (f.finish localId (.answered result)).dead = f.dead := by
  rcases result with fault | outcome
  · rw [finish, summary_vacate, dead_vacate]
    exact ⟨Summary.tally_fail .., rfl⟩
  · rw [finish, summary_vacate, dead_vacate]
    exact ⟨Summary.tally_count .., rfl⟩

theorem keeps_finish {failures : List Failure} (h : f.summary.Keeps failures) (s : Submission)
    (result : Except Fault Outcome) :
    (f.finish s.localId (.answered result)).summary.Keeps
      (failures ++ (s.failure? result).toList) := by
  rcases result with fault | outcome
  · rw [finish, summary_vacate]
    exact h.fail s.localId fault
  · rw [finish, summary_vacate, Submission.failure?, Option.toList_none, List.append_nil]
    exact h.count outcome

end Flow

/-! ## One after the other -/

/-- Carries out submissions with nothing in between. -/
def Ingester.carry (i : Ingester) (now : Datestamp) :
    List Submission → World → List (Except Fault Outcome) × World
  | [], s => ([], s)
  | submission :: rest, s =>
    let (result, s') := (i.ingest now submission).go s
    let (results, s'') := i.carry now rest s'
    (result :: results, s'')

namespace Ingester

variable (i : Ingester) (now : Datestamp)

theorem carry_cons (submission : Submission) (rest : List Submission) (s : World) :
    i.carry now (submission :: rest) s =
      (((i.ingest now submission).go s).1 ::
          (i.carry now rest ((i.ingest now submission).go s).2).1,
        (i.carry now rest ((i.ingest now submission).go s).2).2) := rfl

theorem carry_append (a b : List Submission) (s : World) :
    i.carry now (a ++ b) s = ((i.carry now a s).1 ++ (i.carry now b (i.carry now a s).2).1,
      (i.carry now b (i.carry now a s).2).2) := by
  induction a generalizing s with
  | nil => rfl
  | cons submission rest ih => rw [List.cons_append, carry_cons, ih, carry_cons, List.cons_append]

/-- What each of its submissions respects, a sequence respects. -/
theorem respects_of_mem {R : World → World → Prop} (hR : Work.Lasting R)
    {submissions : List Submission}
    (h : ∀ submission ∈ submissions, Work.Respects R (i.ingest now submission)) (s : World) :
    R s (i.carry now submissions s).2 := by
  induction submissions generalizing s with
  | nil => exact hR.refl s
  | cons submission rest ih =>
    obtain ⟨hfirst, hrest⟩ := List.forall_mem_cons.mp h
    rw [carry_cons]
    exact hR.trans (hfirst s) (ih hrest _)

theorem carry_respects {R : World → World → Prop} (hR : Work.Lasting R)
    (h : ∀ submission, Work.Respects R (i.ingest now submission)) (submissions : List Submission)
    (s : World) : R s (i.carry now submissions s).2 :=
  i.respects_of_mem now hR (fun submission _ ↦ h submission) s

/-- The numbers that submissions add up to. -/
def tally (submissions : List Submission) (s : World) : Tally :=
  ((i.carry now submissions s).1.map tallyOf).sum

theorem tally_cons (submission : Submission) (rest : List Submission) (s : World) :
    i.tally now (submission :: rest) s = tallyOf ((i.ingest now submission).go s).1
      + i.tally now rest ((i.ingest now submission).go s).2 := rfl

theorem tally_append (a b : List Submission) (s : World) :
    i.tally now (a ++ b) s = i.tally now a s + i.tally now b (i.carry now a s).2 := by
  rw [tally, carry_append, List.map_append, List.sum_append, tally, tally]

/-- The failures of submissions, in the order of the submissions. -/
def losses : List Submission → World → List Failure
  | [], _ => []
  | submission :: rest, s =>
    (submission.failure? ((i.ingest now submission).go s).1).toList
      ++ losses rest ((i.ingest now submission).go s).2

theorem losses_append (a b : List Submission) (s : World) :
    i.losses now (a ++ b) s = i.losses now a s ++ i.losses now b (i.carry now a s).2 := by
  induction a generalizing s with
  | nil => rfl
  | cons submission rest ih =>
    rw [List.cons_append, losses, ih, losses, carry_cons, List.append_assoc]

end Ingester

/-! ## What a batch counts -/

namespace Batch

/-- How many values of a stream are no submissions. -/
def malformed (values : List Json) : ℕ :=
  values.countP fun v ↦ (Submission.ofJson v).toOption.isNone

/-- Every value of a stream is a submission or is none. -/
theorem length_submissions (values : List Json) :
    (submissions values).length + malformed values = values.length := by
  rw [submissions, List.length_filterMap_eq_countP, malformed,
    List.length_eq_countP_add_countP fun v ↦ (Submission.ofJson v).toOption.isSome]
  refine congrArg _ (List.countP_congr fun v _ ↦ ?_)
  rcases (Submission.ofJson v).toOption with - | s <;> simp

/-- The failures that are counted for values that are no submissions. -/
def rejections (values : List Json) : List Failure :=
  values.filterMap fun v ↦ match Submission.ofJson v with
    | .error fault => some ⟨givenLocalId v, fault.message⟩
    | .ok _ => none

section Append

variable (values values' : List Json)

theorem malformed_append : malformed (values ++ values') = malformed values + malformed values' :=
  List.countP_append

theorem rejections_append :
    rejections (values ++ values') = rejections values ++ rejections values' :=
  List.filterMap_append

end Append

variable (i : Ingester) (now : Datestamp)

/-- All failures of a stream whose submissions are carried out in some order. -/
def failures (order : List Submission) (values : List Json) (s : World) : List Failure :=
  rejections values ++ i.losses now order s

/-- The failures of two parts of a stream may be counted one part after the other, whatever was
carried out meanwhile. -/
theorem failures_append (order order' : List Submission) (values values' : List Json) (s : World) :
    (failures i now (order ++ order') (values ++ values') s).Perm (failures i now order values s
      ++ failures i now order' values' (i.carry now order s).2) := by
  rw [failures, failures, failures, rejections_append, Ingester.losses_append, List.append_assoc,
    List.append_assoc]
  refine List.Perm.append_left _ ?_
  rw [← List.append_assoc, ← List.append_assoc]
  exact List.perm_append_comm.append_right _

/-! ## The window -/

/-- The account of a batch agrees with what is outstanding. -/
structure Accords (window : ℕ) (b : State) : Prop where
  dead : b.flow.dead = 0
  inFlight : b.flow.inFlight = b.outstanding.length
  window : b.flow.window = max window 1

theorem accords_new (window : ℕ) : Accords window ⟨Flow.new window, [], 0⟩ := ⟨rfl, rfl, rfl⟩

theorem Accords.hasRoom_iff {window : ℕ} {b : State} (h : Accords window b) :
    b.flow.hasRoom = true ↔ b.outstanding.length < max window 1 := by
  rw [Flow.hasRoom, decide_eq_true_eq, h.inFlight, h.window]

/-- One more submission starts. -/
theorem Accords.start {window : ℕ} {b : State} (h : Accords window b) (submission : Submission) :
    Accords window
      { b with flow := b.flow.start, outstanding := b.outstanding ++ [submission] } where
  dead := Flow.dead_start h.dead
  inFlight := by
    rw [b.flow.room_start.1, h.inFlight, List.length_append, List.length_singleton]
  window := b.flow.room_start.2.trans h.window

theorem go_carryOut (flow : Flow) (subs : List Submission) (s : World) : ∃ flow',
    (carryOut i now flow subs).go s = (.ok flow', (i.carry now subs s).2) ∧
      flow'.summary.tally = flow.summary.tally + i.tally now subs s ∧ flow'.dead = flow.dead ∧
      flow'.inFlight = flow.inFlight - subs.length ∧ flow'.window = flow.window ∧
      ∀ old, flow.summary.Keeps old → flow'.summary.Keeps (old ++ i.losses now subs s) := by
  induction subs generalizing flow s with
  | nil =>
    refine ⟨flow, rfl, (add_zero _).symm, rfl, rfl, rfl, fun old hold ↦ ?_⟩
    rwa [Ingester.losses, List.append_nil]
  | cons submission rest ih =>
    obtain ⟨flow', hgo, htally, hdead, hinFlight, hwindow, hkeeps⟩ :=
      ih (flow.finish submission.localId (.answered ((i.ingest now submission).go s).1))
        ((i.ingest now submission).go s).2
    obtain ⟨hfirst, hfirstDead⟩ :=
      flow.tally_finish submission.localId ((i.ingest now submission).go s).1
    obtain ⟨hroom, hfirstWindow⟩ :=
      flow.room_finish submission.localId ((i.ingest now submission).go s).1
    refine ⟨flow', ?_, ?_, hdead.trans hfirstDead, ?_, hwindow.trans hfirstWindow,
      fun old hold ↦ ?_⟩
    · rw [carryOut, Work.go_bind, Work.go_outcome]
      exact hgo
    · rw [htally, hfirst, add_assoc, Ingester.tally, Ingester.tally, Ingester.carry_cons,
        List.map_cons, List.sum_cons]
    · rw [hinFlight, hroom, List.length_cons, Nat.sub_sub, Nat.add_comm]
    · rw [Ingester.losses, ← List.append_assoc]
      exact hkeeps _ (flow.keeps_finish hold submission _)

/-- **A batch that has handed on some values and carried out some submissions**, while others are
left. -/
structure Handed (window : ℕ) (s : World) (b b' : State) (values : List Json)
    (done left : List Submission) : Prop where
  count : b'.count = b.count + values.length
  outstanding : b'.outstanding = left
  tally : b'.flow.summary.tally
    = b.flow.summary.tally + i.tally now done s + malformed values • Outcome.ignored.tally
  keeps : ∀ old, b.flow.summary.Keeps old → ∃ more,
    more.Perm (failures i now done values s) ∧ b'.flow.summary.Keeps (old ++ more)
  accords : Accords window b'

variable {i now} {schedule : Schedule} {window : ℕ} {b b₁ b₂ : State} {s : World}

theorem Handed.nil (hb : Accords window b) (s : World) :
    Handed i now window s b b [] [] b.outstanding where
  count := rfl
  outstanding := rfl
  tally := (add_zero _).symm
  keeps old hold := ⟨[], .nil, by rwa [List.append_nil]⟩
  accords := hb

/-- Values are handed on one after the other. -/
theorem Handed.trans {values values' : List Json} {done done' left left' : List Submission}
    (h : Handed i now window s b b₁ values done left)
    (h' : Handed i now window (i.carry now done s).2 b₁ b₂ values' done' left') :
    Handed i now window s b b₂ (values ++ values') (done ++ done') left' where
  count := by
    rw [h'.count, h.count, List.length_append, Nat.add_assoc]
  outstanding := h'.outstanding
  tally := by
    rw [h'.tally, h.tally, Ingester.tally_append, malformed_append, add_nsmul]
    abel
  keeps old hold := by
    obtain ⟨more, hmore, hkeeps⟩ := h.keeps old hold
    obtain ⟨more', hmore', hkeeps'⟩ := h'.keeps _ hkeeps
    refine ⟨more ++ more', (hmore.append hmore').trans ?_, by rwa [← List.append_assoc]⟩
    exact (failures_append i now done done' values values' s).symm
  accords := h'.accords

variable (i now)

/-- What comes of carrying out some of what is outstanding. -/
theorem go_conclude (hb : Accords window b) {done left : List Submission}
    (hall : (done ++ left).Perm b.outstanding) (s : World) : ∃ b',
    (conclude i now b done left).go s = (.ok b', (i.carry now done s).2) ∧
      Handed i now window s b b' [] done left := by
  obtain ⟨flow, hgo, htally, hdead, hinFlight, hwindow, hkeeps⟩ := go_carryOut i now b.flow done s
  have hlength := hall.length_eq
  rw [List.length_append] at hlength
  refine ⟨{ b with flow, outstanding := left }, ?_, rfl, rfl, htally,
    fun old hold ↦ ⟨_, .refl _, hkeeps old hold⟩, hdead.trans hb.dead, ?_,
    hwindow.trans hb.window⟩
  · rw [conclude, Work.go_bind, hgo]
    rfl
  · rw [hinFlight, hb.inFlight]
    exact Nat.sub_eq_of_eq_add' hlength.symm

theorem go_drain (hb : Accords window b) (s : World) : ∃ b',
    (drain i now b).go s = (.ok b', (i.carry now b.outstanding s).2) ∧
      Handed i now window s b b' [] b.outstanding [] :=
  go_conclude i now hb (List.append_nil _ ▸ .refl _) s

/-- What comes of those whose turn it is. -/
theorem go_release (schedule : Schedule) (hb : Accords window b) (s : World) : ∃ b',
    (release i now schedule b).go s
        = (.ok b', (i.carry now (pick (schedule b.count) b.outstanding).1 s).2) ∧
      Handed i now window s b b' [] (pick (schedule b.count) b.outstanding).1
        (pick (schedule b.count) b.outstanding).2 :=
  go_conclude i now hb (pick_perm _ _) s

/-- What comes of handing one value on. It is counted if it is no submission; if it is one, all that
is outstanding may be carried out before. -/
theorem go_take (hb : Accords window b) (v : Json) (s : World) : ∃ b',
    (take i now b v).go s = (.ok b', (i.carry now (receive window b.outstanding v).1 s).2) ∧
      Handed i now window s b b' [v] (receive window b.outstanding v).1
        (receive window b.outstanding v).2 := by
  have hb₁ : Accords window { b with count := b.count + 1 } := ⟨hb.dead, hb.inFlight, hb.window⟩
  rw [take, receive]
  rcases hv : Submission.ofJson v with fault | submission
  · have hnone : (Submission.ofJson v).toOption = none := by rw [hv]; rfl
    refine ⟨_, rfl, rfl, rfl, ?_, fun old hold ↦ ?_, hb₁.dead, hb₁.inFlight, hb₁.window⟩
    · simp [malformed, hnone]
      rfl
    · refine ⟨[⟨givenLocalId v, fault.message⟩], ?_, hold.fail (givenLocalId v) fault⟩
      simp [failures, rejections, hv, Ingester.losses]
  · have hsome : (Submission.ofJson v).toOption = some submission := by rw [hv]; rfl
    have hwell : malformed [v] = 0 := by simp [malformed, hsome]
    have hnone : rejections [v] = [] := by simp [rejections, hv]
    by_cases hroom : b.flow.hasRoom = true
    · simp only [hroom, if_true, if_pos (hb.hasRoom_iff.mp hroom)]
      refine ⟨_, rfl, rfl, rfl, ?_, fun old hold ↦ ?_, hb₁.start submission⟩
      · rw [hwell, zero_nsmul, Flow.summary_start hb.dead]
        exact (add_zero _).symm
      · rw [failures, hnone, Flow.summary_start hb.dead]
        exact ⟨[], .nil, by rwa [List.append_nil]⟩
    · -- The window is full, so all that is outstanding is carried out first.
      obtain ⟨b₁, hgo, h⟩ := go_drain i now hb₁ s
      simp only [hroom, Bool.false_eq_true, if_false, if_neg (mt hb.hasRoom_iff.mpr hroom)]
      rw [Work.go_bind, hgo]
      refine ⟨_, rfl, h.count, ?_, ?_, fun old hold ↦ ?_, h.accords.start submission⟩
      · rw [h.outstanding, List.nil_append]
      · rw [hwell, zero_nsmul, Flow.summary_start h.accords.dead, h.tally]
        rfl
      · rw [failures, hnone, Flow.summary_start h.accords.dead]
        exact h.keeps old hold

/-- What comes of one value, when those whose turn it is are carried out first. -/
theorem go_next (schedule : Schedule) (hb : Accords window b) (v : Json) (s : World) : ∃ b',
    (next i now schedule b v).go s
        = (.ok b', (i.carry now (turn schedule window b.count b.outstanding v).1 s).2) ∧
      Handed i now window s b b' [v] (turn schedule window b.count b.outstanding v).1
        (turn schedule window b.count b.outstanding v).2 := by
  obtain ⟨b₁, hgo, h⟩ := go_release i now schedule hb s
  obtain ⟨b', hgo', h'⟩ := go_take i now h.accords v
    (i.carry now (pick (schedule b.count) b.outstanding).1 s).2
  rw [h.outstanding] at hgo' h'
  refine ⟨b', ?_, h.trans h'⟩
  rw [next, Work.go_bind, hgo, turn, Ingester.carry_append]
  exact hgo'

/-- **What comes of values that are handed on one after the other.** What is carried out later is
what is left of the order. -/
theorem go_takeAll (schedule : Schedule) (values : List Json) (hb : Accords window b) (s : World) :
    ∃ b' done, (takeAll i now schedule b values).go s = (.ok b', (i.carry now done s).2) ∧
      Handed i now window s b b' values done b'.outstanding ∧
      ∀ rest, orderFrom schedule window b.count b.outstanding (values ++ rest)
        = done ++ orderFrom schedule window b'.count b'.outstanding rest := by
  induction values generalizing b s with
  | nil => exact ⟨b, [], rfl, .nil hb s, fun rest ↦ rfl⟩
  | cons v values ih =>
    obtain ⟨b₁, hgo, h⟩ := go_next i now schedule hb v s
    obtain ⟨b', later, hgo', h', horder⟩ := ih h.accords
      (i.carry now (turn schedule window b.count b.outstanding v).1 s).2
    refine ⟨b', _, ?_, h.trans h', fun rest ↦ ?_⟩
    · rw [takeAll, Work.go_bind, hgo, Ingester.carry_append]
      exact hgo'
    · have hcount : b₁.count = b.count + 1 := h.count
      rw [hcount, h.outstanding] at horder
      rw [List.cons_append, orderFrom, horder, List.append_assoc]

/-- What comes of the end of the stream. -/
theorem go_finish (schedule : Schedule) (hb : Accords window b) (s : World) : ∃ b',
    (finish i now schedule b).go s
        = (.ok b', (i.carry now (orderFrom schedule window b.count b.outstanding []) s).2) ∧
      Handed i now window s b b' [] (orderFrom schedule window b.count b.outstanding []) [] := by
  obtain ⟨b₁, hgo, h⟩ := go_release i now schedule hb s
  obtain ⟨b', hgo', h'⟩ := go_drain i now h.accords
    (i.carry now (pick (schedule b.count) b.outstanding).1 s).2
  rw [h.outstanding] at hgo' h'
  refine ⟨b', ?_, h.trans h'⟩
  rw [finish, Work.go_bind, hgo, orderFrom, Ingester.carry_append]
  exact hgo'

/-- What a summary says of the values of a stream whose submissions are carried out in some order.
Each of them is counted once, and the failures are kept as samples unless there are too many. -/
structure Counted (order : List Submission) (values : List Json) (s : World) (summary : Summary) :
    Prop where
  tally : summary.tally = i.tally now order s + malformed values • Outcome.ignored.tally
  samples : (failures i now order values s).length ≤ Summary.sampleLimit →
    summary.failures.Perm (failures i now order values s)

/-- **A batch carries out its submissions one after the other**, in the order that the schedule and
the window determine. -/
theorem go_run (schedule : Schedule) (window : ℕ) (values : List Json) (s : World) : ∃ b,
    (run i now schedule window values).go s
        = (.ok b, (i.carry now (order schedule window values) s).2) ∧
      Counted i now (order schedule window values) values s b.flow.summary := by
  obtain ⟨b₁, done, hgo₁, h₁, horder⟩ := go_takeAll i now schedule values (accords_new window) s
  obtain ⟨b, hgo, h₂⟩ := go_finish i now schedule h₁.accords (i.carry now done s).2
  have hall : order schedule window values
      = done ++ orderFrom schedule window b₁.count b₁.outstanding [] := by
    rw [← horder, List.append_nil]
    rfl
  have h := h₁.trans h₂
  rw [List.append_nil, ← hall] at h
  have hclose : b.flow.close.summary = b.flow.summary := by
    rw [Flow.close, Flow.reap_of_dead h.accords.dead]
    rfl
  refine ⟨{ b with flow := b.flow.close }, ?_, ?_, fun hfew ↦ ?_⟩
  · rw [run, Work.go_bind, hgo₁, hall, Ingester.carry_append]
    simp only
    rw [Work.go_bind, hgo]
    rfl
  · have hnew : (Flow.new window).summary.tally = 0 := rfl
    rw [hclose, h.tally, hnew, zero_add]
  · obtain ⟨lost, hlost, hkept⟩ := h.keeps [] rfl
    rw [List.nil_append, Summary.Keeps,
      List.take_of_length_le (hlost.length_eq.trans_le hfew)] at hkept
    rw [hclose, hkept]
    exact hlost

end Batch

end RecordLinkage
