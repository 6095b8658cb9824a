import RecordLinkage.Proofs.Ingest.Composition

/-!
# Streams that break off

A stream may stop being JSON at any point. The batch ends with an error then, but not before all
that has started is carried out. So what is left behind is what a stream of the values up to that
point leaves behind, which would have been read to the end and summed up.

What an observer sees of it are the counts of values, one after the other, and that completion is
signalled. Completion is signalled by closing the account and by nothing else, whether a stream has
been read to the end or not.

A scanner that has failed has failed for good. Whatever follows the character at which it failed
might as well be something else.
-/

namespace RecordLinkage

open Work

/-! ## After a failure -/

namespace Scanner

variable {s : Scanner}

theorem hasFailed_iff : s.hasFailed = true ↔ s.mode = .failed := by
  rw [hasFailed]
  split
  · exact iff_of_true rfl ‹_›
  · exact iff_of_false Bool.false_ne_true ‹_›

/-- Nothing is read after a failure. -/
theorem run_of_hasFailed (h : s.hasFailed = true) (cs : List Char) : s.run cs = s := by
  induction cs with
  | nil => rfl
  | cons c rest ih =>
    have hstep : s.step c = s := by
      rw [step, hasFailed_iff.mp h]
    rw [run_cons, hstep, ih]

/-- A scanner that fails does so at some character. -/
theorem exists_breaking {text : List Char} (h : (start.run text).hasFailed = true) :
    ∃ before c rest, text = before ++ c :: rest ∧ (start.run before).hasFailed = false ∧
      (start.run (before ++ [c])).hasFailed = true := by
  induction text using List.reverseRecOn with
  | nil => exact Bool.noConfusion h
  | append_singleton text c ih =>
    by_cases hearlier : (start.run text).hasFailed = true
    · obtain ⟨before, b, rest, rfl, hbefore, hfails⟩ := ih hearlier
      exact ⟨before, b, rest ++ [c], by simp, hbefore, hfails⟩
    · exact ⟨text, c, [], rfl, Bool.not_eq_true _ ▸ hearlier, h⟩

theorem isBlank_space : ∀ c ∈ [' '], isBlank c = true := by simp [isBlank]

end Scanner

namespace Json

/-- What follows the character at which a stream breaks off makes no difference. -/
theorem readStream_of_breaking {a : List Char} (h : (Scanner.start.run a).hasFailed = true)
    (rest : List Char) : readStream (a ++ rest) = readStream a := by
  rw [readStream, Scanner.run_append, Scanner.run_of_hasFailed h, readStream]

/-- The values of any stream are those of a stream that is read to the end. -/
theorem exists_whole (input : List Char) :
    ∃ whole, readStream whole = ⟨(readStream input).values, true⟩ := by
  have hwritten : ∀ v ∈ (readStream input).values, v.Written := fun v ↦ written_of_mem
  generalize (readStream input).values = values at hwritten ⊢
  induction values with
  | nil => exact ⟨[], rfl⟩
  | cons v rest ih =>
    obtain ⟨⟨piece, hpiece⟩, hrest⟩ := List.forall_mem_cons.mp hwritten
    obtain ⟨whole, hwhole⟩ := ih hrest
    have hcomplete : (readStream piece).isComplete = true := by rw [hpiece]
    refine ⟨piece ++ [' '] ++ whole, ?_⟩
    rw [readStream_append hcomplete Scanner.isBlank_space (List.cons_ne_nil _ _), hpiece, hwhole]
    rfl

end Json

/-! ## Completion -/

namespace Flow

/-- How many times completion was signalled. -/
def completions (f : Flow) : ℕ := f.signals.count .complete

variable (f : Flow)

theorem completions_occupy : f.occupy.completions = f.completions := by
  rw [occupy]
  split_ifs
  · simp [completions, signal]
  · rfl

theorem completions_vacate : f.vacate.completions = f.completions := by
  rw [vacate]
  split_ifs
  · simp [completions, signal]
  · rfl

theorem completions_start : f.start.completions = f.completions := f.reap.completions_occupy

theorem completions_finish (localId : Option String) (ending : Ending) :
    (f.finish localId ending).completions = f.completions := by
  rcases ending with (fault | outcome) | -
  · exact completions_vacate _
  · exact completions_vacate _
  · exact completions_vacate _

theorem completions_close : f.close.completions = f.completions + 1 := by
  rw [close, completions, signal, List.count_append]
  rfl

end Flow

/-! ## What an observer sees -/

namespace Batch

variable {i : Ingester} {now : Datestamp} {schedule : Schedule} {s s' : World} {b b' : State}

theorem completions_carryOut {flow flow' : Flow} {subs : List Submission}
    (hgo : (carryOut i now flow subs).go s = (.ok flow', s')) :
    flow'.completions = flow.completions := by
  induction subs generalizing flow s with
  | nil =>
    obtain rfl := Except.ok.inj (Prod.mk.inj hgo).1
    rfl
  | cons submission rest ih =>
    rw [carryOut, go_bind, go_outcome] at hgo
    rw [ih hgo, Flow.completions_finish]

/-- So many values were handed on between two states of a batch, and completion was not signalled. -/
structure Passed (n : ℕ) (b b' : State) : Prop where
  count : b'.count = b.count + n
  completions : b'.flow.completions = b.flow.completions

theorem Passed.trans {m n : ℕ} {b₁ : State} (h : Passed m b b₁) (h' : Passed n b₁ b') :
    Passed (m + n) b b' where
  count := by
    rw [h'.count, h.count, Nat.add_assoc]
  completions := h'.completions.trans h.completions

theorem passed_conclude {done left : List Submission}
    (hgo : (conclude i now b done left).go s = (.ok b', s')) : Passed 0 b b' := by
  obtain ⟨flow, s₁, hcarry, hgo⟩ := go_bind_ok.mp hgo
  obtain rfl := Except.ok.inj (Prod.mk.inj hgo).1
  exact ⟨rfl, completions_carryOut hcarry⟩

/-- **Each value is counted**, submission or not. -/
theorem passed_take {v : Json} (hgo : (take i now b v).go s = (.ok b', s')) : Passed 1 b b' := by
  rw [take] at hgo
  rcases hv : Submission.ofJson v with fault | submission
  · rw [hv] at hgo
    obtain rfl := Except.ok.inj (Prod.mk.inj hgo).1
    exact ⟨rfl, rfl⟩
  · rw [hv] at hgo
    dsimp only at hgo
    by_cases hroom : b.flow.hasRoom
    · rw [if_pos hroom] at hgo
      obtain rfl := Except.ok.inj (Prod.mk.inj hgo).1
      exact ⟨rfl, Flow.completions_start _⟩
    · rw [if_neg hroom] at hgo
      obtain ⟨b₁, s₁, hdrain, hgo⟩ := go_bind_ok.mp hgo
      obtain ⟨hcount, hcompletions⟩ := passed_conclude hdrain
      obtain rfl := Except.ok.inj (Prod.mk.inj hgo).1
      exact ⟨hcount, (Flow.completions_start _).trans hcompletions⟩

theorem passed_next {v : Json} (hgo : (next i now schedule b v).go s = (.ok b', s')) :
    Passed 1 b b' := by
  obtain ⟨b₁, s₁, hrelease, htake⟩ := go_bind_ok.mp hgo
  exact (passed_conclude hrelease).trans (passed_take htake)

theorem passed_finish (hgo : (finish i now schedule b).go s = (.ok b', s')) : Passed 0 b b' := by
  obtain ⟨b₁, s₁, hrelease, hdrain⟩ := go_bind_ok.mp hgo
  exact (passed_conclude hrelease).trans (passed_conclude hdrain)

/-- Values are handed on one after the other, and the count is shown after each of them. -/
inductive Shows (i : Ingester) (now : Datestamp) (schedule : Schedule) :
    State → World → List Json → List ℕ → State → World → Prop where
  | nil (b : State) (s : World) : Shows i now schedule b s [] [] b s
  | cons {b b₁ b' : State} {s s₁ s' : World} {v : Json} {values : List Json} {counts : List ℕ}
      (hnext : (next i now schedule b v).go s = (.ok b₁, s₁))
      (hrest : Shows i now schedule b₁ s₁ values counts b' s') :
      Shows i now schedule b s (v :: values) (b₁.count :: counts) b' s'

theorem Shows.counts {values : List Json} {counts : List ℕ}
    (h : Shows i now schedule b s values counts b' s') :
    counts = List.range' (b.count + 1) values.length ∧ Passed values.length b b' := by
  induction h with
  | nil b s => exact ⟨rfl, rfl, rfl⟩
  | cons hnext hrest ih =>
    obtain ⟨hcounts, hcount, hcompletions⟩ := ih
    obtain ⟨hone, hnone⟩ := passed_next hnext
    rw [hone] at hcount hcounts
    refine ⟨?_, ?_, hcompletions.trans hnone⟩
    · rw [hone, hcounts, List.length_cons, List.range'_succ]
    · rw [hcount, List.length_cons]
      omega

theorem exists_shows {values : List Json}
    (hgo : (takeAll i now schedule b values).go s = (.ok b', s')) :
    ∃ counts, Shows i now schedule b s values counts b' s' := by
  induction values generalizing b s with
  | nil =>
    obtain ⟨hb, rfl⟩ := Prod.mk.inj hgo
    obtain rfl := Except.ok.inj hb
    exact ⟨[], .nil b s⟩
  | cons v rest ih =>
    obtain ⟨b₁, s₁, hnext, hgo⟩ := go_bind_ok.mp hgo
    obtain ⟨counts, hcounts⟩ := ih hgo
    exact ⟨_, .cons hnext hcounts⟩

/-- What an observer sees of a batch that runs through: the values are counted one by one while they
are handed on, and then, when all that has started has ended, completion is signalled once. -/
structure Watched (i : Ingester) (now : Datestamp) (schedule : Schedule) (window : ℕ)
    (values : List Json) (s : World) (b : State) (s' : World) : Prop where
  taken : ∃ b₁ s₁ b₂, Shows i now schedule ⟨Flow.new window, [], 0⟩ s values
      (List.range' 1 values.length) b₁ s₁ ∧
    b₁.flow.completions = 0 ∧ (finish i now schedule b₁).go s₁ = (.ok b₂, s') ∧
    b₂.flow.completions = 0 ∧ b = { b₂ with flow := b₂.flow.close }
  count : b.count = values.length
  completions : b.flow.completions = 1

theorem watched_of_run {window : ℕ} {values : List Json}
    (hgo : (run i now schedule window values).go s = (.ok b, s')) :
    Watched i now schedule window values s b s' := by
  obtain ⟨b₁, s₁, htake, hgo⟩ := go_bind_ok.mp hgo
  obtain ⟨b₂, s₂, hfinish, hgo⟩ := go_bind_ok.mp hgo
  obtain ⟨hb, rfl⟩ := Prod.mk.inj hgo
  obtain rfl := Except.ok.inj hb
  obtain ⟨counts, hshows⟩ := exists_shows htake
  obtain ⟨rfl, hcount, hnone⟩ := hshows.counts
  obtain ⟨hcount', hnone'⟩ := passed_finish hfinish
  have hfinal : b₂.count = values.length := by
    rw [hcount', hcount]
    exact Nat.zero_add _
  have hclosed : b₂.flow.close.completions = 1 := by
    rw [Flow.completions_close, hnone', hnone]
    rfl
  exact ⟨⟨b₁, s₁, b₂, hshows, hnone, hfinish, hnone'.trans hnone, rfl⟩, hfinal, hclosed⟩

/-- What is reported of a stream that breaks off. -/
def brokenReport (count : ℕ) : BatchReport where
  progress := ⟨[Progress.loading, Progress.ingesting], count, 1, false⟩
  result := .error (.parse ("invalid JSON after " ++ Number.natText count ++ " records"))

theorem Watched.report_eq {window : ℕ} {values : List Json}
    (h : Watched i now schedule window values s b s') :
    report b false = brokenReport values.length := by
  have hcompletions : b.flow.signals.count .complete = 1 := h.completions
  change (⟨⟨_, b.count, b.flow.signals.count .complete, _⟩, .error (brokenStream b.count)⟩ :
    BatchReport) = _
  rw [h.count, hcompletions]
  rfl

end Batch

/-- **A stream that breaks off commits what came before, and nothing else.** An ingester can be set
up, and reading the input ends with an error after some values. Whatever the schedule and the window
are, the batch ends with a parse error that names how many values there were. An observer has seen
the counts from one up to that number and one signal of completion, but not that the batch was done.
The world is the one that the submissions among these values leave behind, in the order that the
schedule and the window determine. It is the same as after any stream of just these values that is
read to the end, with the same schedule and window; such a batch succeeds, and there are such
streams. Where nobody overtakes, as in a window that has room for one, it does not depend on the
schedule and the window. Either there is no error but that the input ends too early, or there is a
character at which it was met, and what follows that one is not read. -/
theorem broken_stream_commits_prefix {i : Ingester} {w w₀ : World} {access : Access}
    {tenant : TenantId} {request : IngestRequest} {settings : IngestSettings} {input : List Char}
    (hcreate : (Ingester.create access tenant request settings).go w = (.ok i, w₀))
    (hbroken : (Json.readStream input).isComplete = false) (now : Datestamp) :
    let values := (Json.readStream input).values
    (∀ schedule window,
        let s := (i.carry now (Batch.order schedule window values) w₀).2
        (ingestBatch access tenant request (settings.withWindow window) schedule now input).go w
          = (.ok (Batch.brokenReport values.length), s) ∧
        (∃ b, (Batch.run i now schedule window values).go w₀ = (.ok b, s) ∧
          Batch.Watched i now schedule window values w₀ b s) ∧
        ∀ whole, Json.readStream whole = ⟨values, true⟩ → ∃ summary,
          Batch.Succeeds
            (ingestBatch access tenant request (settings.withWindow window) schedule now whole) w s
            summary) ∧
      (∃ whole, Json.readStream whole = ⟨values, true⟩) ∧
      (∀ schedule window, window ≤ 1 ∨ schedule = .inOrder →
        Batch.order schedule window values = Batch.submissions values) ∧
      ((Scanner.start.run input).hasFailed = false ∨
        ∃ before c rest, input = before ++ c :: rest ∧
          (Scanner.start.run before).hasFailed = false ∧
          ∀ other schedule, ingestBatch access tenant request settings schedule now
              (before ++ c :: other)
            = ingestBatch access tenant request settings schedule now input) := by
  intro values
  have hsame : ∀ window,
      (Ingester.create access tenant request (settings.withWindow window)).go w = (.ok i, w₀) :=
    fun _ ↦ hcreate
  refine ⟨fun schedule window ↦ ?_, Json.exists_whole input, fun schedule window ↦ ?_, ?_⟩
  · obtain ⟨b, hgo, -⟩ := Batch.go_run i now schedule window values w₀
    have hwatched := Batch.watched_of_run hgo
    refine ⟨?_, ⟨b, hgo, hwatched⟩, fun whole hwhole ↦ ?_⟩
    · rw [ingestBatch, go_bind, go_outcome, hsame, ← hwatched.report_eq, ← hbroken]
      change (do
        let b ← Batch.run i now schedule window values
        return Batch.report b (Json.readStream input).isComplete : Work BatchReport).go w₀ = _
      rw [go_bind, hgo]
      rfl
    · have hcomplete : (Json.readStream whole).isComplete = true := by rw [hwhole]
      obtain ⟨summary, hsucceeds, -⟩ :=
        Batch.exists_succeeds (hsame window) hcomplete schedule now
      rw [hwhole] at hsucceeds
      exact ⟨summary, hsucceeds⟩
  · rintro (hwindow | rfl)
    · exact Batch.order_of_window schedule hwindow values
    · exact Batch.order_inOrder window values
  · by_cases hfails : (Scanner.start.run input).hasFailed = true
    · obtain ⟨before, c, rest, rfl, hbefore, hbreaks⟩ := Scanner.exists_breaking hfails
      refine Or.inr ⟨before, c, rest, rfl, hbefore, fun other schedule ↦ ?_⟩
      have hread : ∀ more, Json.readStream (before ++ c :: more)
          = Json.readStream (before ++ [c]) := by
        intro more
        rw [← Json.readStream_of_breaking hbreaks more, List.append_assoc]
        rfl
      rw [ingestBatch, ingestBatch, hread other, hread rest]
    · exact Or.inl (Bool.eq_false_iff.mpr hfails)

namespace Sample

/-- The morning, until something happens. -/
def interrupted : List Char := morning ++ [' '] ++ "\x7bnot".toList

end Sample

open Sample in
/-- Whatever is in flight when the stream breaks off is carried out, also if it is overtaken. -/
theorem interrupted_morning : ∃ s s' summary,
    (ingestBatch .free tenant request (settings.withWindow 3) (overtaking 4) 7 interrupted).go
      (run blank bridge) = (.ok (Batch.brokenReport 4), s) ∧
    Batch.Succeeds (ingestBatch .free tenant request (settings.withWindow 3) (overtaking 4) 7
      morning) (run blank bridge) s summary ∧
    (ingestBatch .free tenant request (settings.withWindow 3) .inOrder 7 interrupted).go
      (run blank bridge) = (.ok (Batch.brokenReport 4), s') ∧
    (ingestBatch .free tenant request (settings.withWindow 1) (overtaking 4) 7 interrupted).go
      (run blank bridge) = (.ok (Batch.brokenReport 4), s') := by
  have hmorning : (Json.readStream morning).isComplete = true := by decide +kernel
  have hjoin : Json.readStream interrupted = ⟨(Json.readStream morning).values, false⟩ := by
    rw [interrupted, Json.readStream_append hmorning Scanner.isBlank_space (List.cons_ne_nil _ _)]
    exact congrArg (fun values ↦ (⟨values, false⟩ : JsonStream)) (List.append_nil _)
  have hlength : (Json.readStream morning).values.length = 4 := by decide +kernel
  have hready : ((Ingester.create .free tenant request settings).go
      (run blank bridge)).1.toOption.isSome = true := by
    decide +kernel
  rcases hcreate : (Ingester.create .free tenant request settings).go (run blank bridge) with
    ⟨f | i, w₀⟩
  · rw [hcreate] at hready
    cases hready
  · have hbroken : (Json.readStream interrupted).isComplete = false := by rw [hjoin]
    obtain ⟨hall, -, hinOrder, -⟩ := broken_stream_commits_prefix hcreate hbroken 7
    obtain ⟨hgo, -, hwhole⟩ := hall (overtaking 4) 3
    obtain ⟨hlate, -⟩ := hall .inOrder 3
    obtain ⟨hsingle, -⟩ := hall (overtaking 4) 1
    rw [hinOrder .inOrder 3 (Or.inr rfl)] at hlate
    rw [hinOrder (overtaking 4) 1 (Or.inl (Nat.le_refl 1))] at hsingle
    rw [hjoin] at hgo hwhole hlate hsingle
    obtain ⟨summary, hsucceeds⟩ := hwhole morning
      (congrArg (fun b ↦ (⟨(Json.readStream morning).values, b⟩ : JsonStream)) hmorning)
    rw [hlength] at hgo hlate hsingle
    exact ⟨_, _, summary, hgo, hsucceeds, hlate, hsingle⟩

end RecordLinkage
