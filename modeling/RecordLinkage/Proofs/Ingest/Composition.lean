import RecordLinkage.Proofs.Ingest.Refusals
import RecordLinkage.Proofs.Json.Stream

/-!
# Batches compose

A batch may be cut between any two of its values, and its parts ingested one after the other. Each
part sets up an ingester of its own; but carrying out submissions writes no match key and leaves the
methods alone, so this is the same ingester, and nothing happens when it is set up once more. If the
submissions are carried out in the same order then, each of them meets the same world as it would in
the whole batch. So what is left behind is the same, down to the identifiers that were handed out.

That is so where nobody overtakes, as in a window that has room for one. In a wider window it depends
on the schedules: whatever the parts lead to, the whole batch can lead to, but in the whole batch a
submission may also overtake one of an earlier part. If both name the same record, that shows in what
is stored and counted. What does not depend on the order holds of all schedules: each value is
counted once, the same submissions are refused, and if no two of them name the same record, all
differences are in the names of what is new.

The summaries of the parts add up to that of the whole. Only the order of the samples may differ,
because what is no submission is counted at once, and all others when they are carried out.
-/

namespace RecordLinkage

open Clustering Work Tables

variable {i : Ingester} {w w₀ s s' : World} {now : Datestamp} {submission : Submission}
  {submissions order order' : List Submission} {values values' : List Json} {summary : Summary}

/-! ## The ingester of the next batch -/

namespace Ingester

variable {access : Access} {tenant : TenantId} {request : IngestRequest}
  {settings : IngestSettings}

/-- **An ingester that has carried out submissions is set up once more without anything
happening.** -/
theorem create_after (hform : w.tables.Wellformed)
    (hcreate : (create access tenant request settings).go w = (.ok i, w₀)) (now : Datestamp)
    (submissions : List Submission) :
    (create access tenant request settings).go (i.carry now submissions w₀).2
      = (.ok i, (i.carry now submissions w₀).2) := by
  obtain ⟨htables, -⟩ := create_ok hcreate
  obtain ⟨-, hkeys⟩ := i.carry_keepsMatchKeys now submissions w₀ (htables ▸ hform)
  refine create_again hform hcreate ?_ (i.cache_carry now submissions w₀)
  rw [hkeys, htables]

end Ingester

/-! ## Summaries that add up -/

namespace Batch

/-- What several summaries say together of the values of a stream whose submissions are carried out
in some order. -/
structure Summed (i : Ingester) (now : Datestamp) (order : List Submission) (values : List Json)
    (s : World) (summaries : List Summary) : Prop where
  tally : (summaries.map Summary.tally).sum
    = i.tally now order s + malformed values • Outcome.ignored.tally
  samples : (failures i now order values s).length ≤ Summary.sampleLimit →
    (summaries.flatMap Summary.failures).Perm (failures i now order values s)

variable {summaries : List Summary}

theorem Summed.nil (i : Ingester) (now : Datestamp) (s : World) : Summed i now [] [] s [] where
  tally := rfl
  samples _ := .nil

theorem Counted.cons (h : Counted i now order values s summary)
    (hrest : Summed i now order' values' (i.carry now order s).2 summaries) :
    Summed i now (order ++ order') (values ++ values') s (summary :: summaries) where
  tally := by
    rw [List.map_cons, List.sum_cons, h.tally, hrest.tally, malformed_append,
      Ingester.tally_append, add_nsmul]
    abel
  samples hfew := by
    have hperm := failures_append i now order order' values values' s
    rw [hperm.length_eq, List.length_append] at hfew
    rw [List.flatMap_cons]
    exact ((h.samples (by omega)).append (hrest.samples (by omega))).trans hperm.symm

end Batch

namespace Ingester

theorem tally_fst (i : Ingester) (now : Datestamp) (submissions : List Submission) (s : World) :
    (i.tally now submissions s).1 = submissions.length := by
  have hone : ∀ result, (tallyOf result).1 = 1 := by rintro (f | - | - | - | -) <;> rfl
  induction submissions generalizing s with
  | nil => rfl
  | cons submission rest ih =>
    rw [tally_cons, Prod.fst_add, hone, ih, List.length_cons, Nat.add_comm]

end Ingester

namespace Batch

variable {summaries : List Summary}

/-- All values of a stream are counted when all its submissions are carried out. -/
theorem length_eq_tally_fst (hperm : order.Perm (Batch.submissions values)) (s : World) :
    (i.tally now order s + malformed values • Outcome.ignored.tally).1 = values.length := by
  rw [Prod.fst_add, i.tally_fst, Prod.smul_fst, hperm.length_eq, ← length_submissions]
  exact congrArg _ (Nat.mul_one _)

/-- Every value is counted. -/
theorem Counted.processed (h : Counted i now order values s summary)
    (hperm : order.Perm (Batch.submissions values)) : summary.processed = values.length :=
  (congrArg Prod.fst h.tally).trans (length_eq_tally_fst hperm s)

theorem Summed.processed (h : Summed i now order values s summaries)
    (hperm : order.Perm (Batch.submissions values)) :
    (summaries.map Summary.processed).sum = values.length := by
  have hsum : (summaries.map Summary.processed).sum = (summaries.map Summary.tally).sum.1 := by
    have hfst := map_list_sum (AddMonoidHom.fst ℕ (ℕ × ℕ × ℕ × ℕ)) (summaries.map Summary.tally)
    rw [List.map_map] at hfst
    exact hfst.symm
  rw [hsum, h.tally, length_eq_tally_fst hperm]

end Batch

/-! ## The balance of records -/

/-- As many records have come as were counted as inserted, and as many have gone as were counted as
deleted. -/
def Balanced (s s' : World) (t : Tally) : Prop :=
  s'.tables.records.length + t.2.2.2.2 = s.tables.records.length + t.2.2.1

theorem Balanced.trans {s'' : World} {t t' : Tally} (h : Balanced s s' t)
    (h' : Balanced s' s'' t') : Balanced s s'' (t + t') := by
  simp only [Balanced, Prod.snd_add, Prod.fst_add] at h h' ⊢
  omega

/-- Deleting the record of a key takes one record away, if there is one. -/
theorem Tables.Wellformed.length_deleteRecord {t : Tables} (h : t.Wellformed) (key : RecordKey)
    (now : Datestamp) : (t.deleteRecord key now).2.records.length
      + (if (t.recordOf? key).isSome then 1 else 0) = t.records.length := by
  have hrecords : (t.deleteRecord key now).2.records
      = t.records.filter fun r ↦ !decide (r.key = key) := rfl
  have hcount : t.records.countP (fun r ↦ decide (r.key = key))
      = (t.records.map RecordRow.key).count key := by
    rw [List.count, List.countP_map]
    exact List.countP_congr fun r _ ↦ by simp
  have hone : (t.records.map RecordRow.key).count key
      = if (t.recordOf? key).isSome then 1 else 0 := by
    rw [h.recordKey_nodup.count]
    simp only [recordOf?, List.find?_isSome, List.mem_map, decide_eq_true_eq]
  rw [hrecords, ← hone, ← hcount, List.countP_eq_length_filter, Nat.add_comm]
  exact (List.length_eq_length_filter_add _).symm

namespace Ingester

/-- Storing adds a record when it is counted as inserted, and none otherwise. -/
theorem balanced_of_store {localId : String} {payload : Json} {outcome : Outcome} (ho : s.Orderly)
    (hids : s.ids.next < idLimit) (hgo : (i.store now localId payload).go s = (.ok outcome, s')) :
    Balanced s s' (tallyOf (.ok outcome)) := by
  obtain rfl := outcome_of_store ho hids hgo
  obtain ⟨_, _, r, s₁, henroll, -, hassign, -⟩ := store_ok hgo
  obtain ⟨t, -, rfl, hst⟩ := enroll_ok henroll
  obtain ⟨-, hrecords, -⟩ :=
    i.assignAll_keepsRecords now r payload hassign (ho.form.storeRecord hst)
  rw [Balanced, hrecords]
  rcases storeRecord_ok_iff.mp hst with ⟨row, hrow, -, rfl⟩ | ⟨hnone, -, -, rfl⟩
  · rw [hrow]
    exact List.length_map _
  · rw [hnone]
    exact List.length_append

/-- **A submission keeps the balance.** -/
theorem ingest_balanced (ho : s.Orderly)
    (hids : ((i.ingest now submission).go s).2.ids.next < idLimit) :
    Balanced s ((i.ingest now submission).go s).2 (tallyOf ((i.ingest now submission).go s).1) := by
  rcases hdeed : i.deed? s.tables submission with - | ⟨key, payload⟩ | key
  · obtain ⟨f, s', hgo, htables, -⟩ := ingest_of_deed?_none ho.form hdeed
    rw [hgo, Balanced, htables]
    rfl
  · obtain ⟨localId, outcome, s', rfl, hgo, hstore⟩ := ingest_of_deed?_store ho hids hdeed
    have hgrows := i.ingest_grows now submission s
    rw [hgo]
    exact balanced_of_store ho (hgrows.trans_lt hids) hstore
  · have hlength := ho.form.length_deleteRecord key now
    rw [ingest_of_deed?_remove hdeed, deleteRecord_fst, Balanced, ← hlength]
    rcases (s.tables.recordOf? key).isSome with - | -
    · rfl
    · rfl

/-- **Submissions keep the balance.** -/
theorem carry_balanced (ho : s.Orderly)
    (hids : (i.carry now submissions s).2.ids.next < idLimit) :
    Balanced s (i.carry now submissions s).2 (i.tally now submissions s) := by
  induction submissions generalizing s with
  | nil => rfl
  | cons submission rest ih =>
    rw [carry_cons] at hids ⊢
    rw [tally_cons]
    have hids₁ := (i.carry_grows now rest _).trans_lt hids
    obtain ⟨-, hdealt⟩ := ingest_dealt ho hids₁
    exact (ingest_balanced ho hids₁).trans (ih hdealt.orderly hids)

end Ingester

/-- What is counted as ignored is in balance. -/
theorem Batch.Counted.balanced (h : Counted i now order values s summary)
    (hbalanced : Balanced s s' (i.tally now order s)) :
    s'.tables.records.length + summary.deleted = s.tables.records.length + summary.inserted := by
  have hignored : Balanced s' s' (malformed values • Outcome.ignored.tally) := by
    simp [Balanced, Outcome.tally]
  have hall := hbalanced.trans hignored
  rwa [← h.tally] at hall

/-! ## Batches one after the other -/

/-- A batch is ingested, from one world to another, and summed up. -/
def Batch.Succeeds (batch : Work BatchReport) (s s' : World) (summary : Summary) : Prop :=
  ∃ report, batch.go s = (.ok report, s') ∧ report.result = .ok summary

/-- Batches are ingested one after the other. -/
inductive Batch.SucceedInTurn : List (Work BatchReport) → World → World → List Summary → Prop
  | nil (s : World) : SucceedInTurn [] s s []
  | cons {batch : Work BatchReport} {rest : List (Work BatchReport)} {s s' s'' : World}
      {summary : Summary} {summaries : List Summary} (hfirst : Succeeds batch s s' summary)
      (hrest : SucceedInTurn rest s' s'' summaries) :
      SucceedInTurn (batch :: rest) s s'' (summary :: summaries)

namespace Batch

/-- Two batches in a row. -/
theorem SucceedInTurn.exists_pair {batch batch' : Work BatchReport} {summaries : List Summary}
    (h : SucceedInTurn [batch, batch'] s s' summaries) : ∃ s₁ first second,
      summaries = [first, second] ∧ Succeeds batch s s₁ first ∧ Succeeds batch' s₁ s' second := by
  cases h with
  | cons hfirst hrest =>
    cases hrest with
    | cons hsecond hnil =>
      cases hnil
      exact ⟨_, _, _, rfl, hfirst, hsecond⟩

variable {access : Access} {tenant : TenantId} {request : IngestRequest}
  {settings : IngestSettings} {input : List Char}

theorem Succeeds.unique {batch : Work BatchReport} {s₁ s₂ : World} {x y : Summary}
    (h : Succeeds batch s s₁ x) (h' : Succeeds batch s s₂ y) : s₁ = s₂ ∧ x = y := by
  obtain ⟨report, hgo, hreport⟩ := h
  obtain ⟨report', hgo', hreport'⟩ := h'
  obtain ⟨hsame, rfl⟩ := Prod.mk.inj (hgo.symm.trans hgo')
  obtain rfl := Except.ok.inj hsame
  exact ⟨rfl, Except.ok.inj (hreport.symm.trans hreport')⟩

/-- A batch that is read to the end succeeds. -/
theorem exists_succeeds
    (hcreate : (Ingester.create access tenant request settings).go s = (.ok i, s'))
    (hinput : (Json.readStream input).isComplete = true) (schedule : Schedule) (now : Datestamp) :
    let order := Batch.order schedule settings.window (Json.readStream input).values
    ∃ summary, Succeeds (ingestBatch access tenant request settings schedule now input) s
        (i.carry now order s').2 summary ∧
      Counted i now order (Json.readStream input).values s' summary := by
  obtain ⟨b, hgo, hcounted⟩ := go_ingestBatch hcreate schedule now input
  refine ⟨b.flow.summary, ⟨_, hgo, ?_⟩, hcounted⟩
  rw [report, hinput, if_pos rfl]

/-- Whatever a batch that succeeds leaves behind is what its submissions leave behind. -/
theorem Succeeds.counted {schedule : Schedule}
    (hcreate : (Ingester.create access tenant request settings).go w = (.ok i, w₀))
    (h : Succeeds (ingestBatch access tenant request settings schedule now input) w s summary) :
    let order := Batch.order schedule settings.window (Json.readStream input).values
    s = (i.carry now order w₀).2 ∧
      Counted i now order (Json.readStream input).values w₀ summary := by
  obtain ⟨report, hgo, hreport⟩ := h
  obtain ⟨b, hgo', hcounted⟩ := go_ingestBatch hcreate schedule now input
  rw [hgo', Prod.mk.injEq] at hgo
  obtain ⟨hsame, rfl⟩ := hgo
  rw [← Except.ok.inj hsame, Batch.report] at hreport
  dsimp only at hreport
  split_ifs at hreport
  rw [← Except.ok.inj hreport]
  exact ⟨rfl, hcounted⟩

/-- Batches that are read to the end succeed one after the other. -/
theorem exists_succeedInTurn {part : Schedule × List Char} {rest : List (Schedule × List Char)}
    (hparts : ∀ p ∈ part :: rest, (Json.readStream p.2).isComplete = true)
    (hform : s.tables.Wellformed)
    (hcreate : (Ingester.create access tenant request settings).go s = (.ok i, s'))
    (now : Datestamp) :
    let order := orderInTurn settings.window (part :: rest)
    ∃ summaries, SucceedInTurn
        ((part :: rest).map fun p ↦ ingestBatch access tenant request settings p.1 now p.2) s
        (i.carry now order s').2 summaries ∧
      Summed i now order ((part :: rest).flatMap fun p ↦ (Json.readStream p.2).values) s'
        summaries ∧ summaries ≠ [] := by
  obtain ⟨hpart, hrest⟩ := List.forall_mem_cons.mp hparts
  obtain ⟨summary, hsucceeds, hcounted⟩ := exists_succeeds hcreate hpart part.1 now
  induction rest generalizing part s s' summary with
  | nil =>
    refine ⟨[summary], .cons hsucceeds ?_, hcounted.cons (.nil i now _), List.cons_ne_nil _ _⟩
    rw [orderInTurn, List.flatMap_cons, List.flatMap_nil, List.append_nil]
    exact .nil _
  | cons next rest ih =>
    -- The next part starts where this one ends, and its ingester is set up already.
    have hready := Ingester.create_after hform hcreate now
      (order part.1 settings.window (Json.readStream part.2).values)
    obtain ⟨htables, -⟩ := Ingester.create_ok hcreate
    obtain ⟨hform', -⟩ := i.carry_keepsMatchKeys now
      (order part.1 settings.window (Json.readStream part.2).values) s' (htables ▸ hform)
    obtain ⟨hnext, hlater⟩ := List.forall_mem_cons.mp hrest
    obtain ⟨summary', hsucceeds', hcounted'⟩ := exists_succeeds hready hnext next.1 now
    obtain ⟨summaries, hturn, hsummed, -⟩ :=
      ih hrest hform' hready hnext hlater summary' hsucceeds' hcounted'
    refine ⟨summary :: summaries, ?_, hcounted.cons hsummed, List.cons_ne_nil _ _⟩
    rw [orderInTurn, List.flatMap_cons, Ingester.carry_append]
    exact .cons hsucceeds hturn

/-- **How a batch compares with its parts**, that is, the values of a stream that are carried out in
one order with the same values that are carried out in another order and summed up in parts. -/
structure Composes (i : Ingester) (now : Datestamp) (w w₀ : World) (values : List Json)
    (order order' : List Submission) (s s' : World) (joint : Summary) (summaries : List Summary) :
    Prop where
  /-- Each value is counted once. -/
  processed : joint.processed = (summaries.map Summary.processed).sum
  /-- In the same order everything comes out the same. -/
  same : order = order' → s'.tables = s.tables ∧ s'.ids = s.ids ∧ (summaries ≠ [] → s' = s) ∧
    joint.tally = (summaries.map Summary.tally).sum
  /-- As long as there are not too many failures, they are the same. -/
  samples : order = order' ∨ s.ids.next < idLimit ∧ s'.ids.next < idLimit →
    (failures i now order values w₀).length ≤ Summary.sampleLimit →
    joint.failures.Perm (summaries.flatMap Summary.failures)
  /-- If no two submissions name the same record, the order matters for new names only. -/
  unlike : (Batch.submissions values).Pairwise i.Unlike → now < Datestamp.limit →
    s.ids.next < idLimit → s'.ids.next < idLimit →
    joint.tally = (summaries.map Summary.tally).sum ∧ ∃ ρ κ, Alike w s s' ρ κ

/-- Two orders of the same submissions are enough. -/
theorem composes {joint : Summary} {summaries : List Summary} (h : Reachable w)
    (hidle : Idles w w₀) (hkeys : i.Equipped w₀.tables)
    (hperm : order.Perm (Batch.submissions values)) (hperm' : order'.Perm (Batch.submissions values))
    (hjoint : Counted i now order values w₀ joint) (hparts : Summed i now order' values w₀ summaries)
    (htables : s'.tables = (i.carry now order' w₀).2.tables)
    (hids : s'.ids = (i.carry now order' w₀).2.ids)
    (hsome : summaries ≠ [] → s' = (i.carry now order' w₀).2) :
    Composes i now w w₀ values order order' (i.carry now order w₀).2 s' joint summaries where
  processed := (hjoint.processed hperm).trans (hparts.processed hperm').symm
  same := by
    rintro rfl
    exact ⟨htables, hids, hsome, hjoint.tally.trans hparts.tally.symm⟩
  samples := by
    rintro (rfl | ⟨hlt, hlt'⟩) hfew
    · exact (hjoint.samples hfew).trans (hparts.samples hfew).symm
    · rw [hids] at hlt'
      have ho := h.orderly_of_idles hidle ((i.carry_grows now order w₀).trans_lt hlt).le
      have hsame := failures_perm (hperm.trans hperm'.symm) ho hkeys values hlt hlt'
      refine (hjoint.samples hfew).trans (hsame.trans (hparts.samples ?_).symm)
      rwa [← hsame.length_eq]
  unlike hunlike hnow hlt hlt' := by
    rw [hids] at hlt'
    have hunlike₁ := (hperm.pairwise_iff Ingester.Unlike.symm).mpr hunlike
    obtain ⟨htally, -, -, ρ, κ, halike⟩ :=
      h.carry_alike hidle (hperm.trans hperm'.symm) hunlike₁ hnow hnow hlt hlt'
    refine ⟨?_, ρ, κ, halike.congr htables⟩
    rw [hjoint.tally, hparts.tally, htally]

theorem idles_of_create (hcreate : (Ingester.create access tenant request settings).go w
    = (.ok i, w₀)) : Idles w w₀ := by
  obtain ⟨c, rfl⟩ := Ingester.exists_cache_of_create hcreate
  exact ⟨rfl, Nat.le_refl _⟩

/-- A batch is compared with its parts. -/
theorem exists_composes (h : Reachable w)
    (hcreate : (Ingester.create access tenant request settings).go w = (.ok i, w₀))
    (now : Datestamp) (hinput : (Json.readStream input).isComplete = true)
    (parts : List (Schedule × List Char))
    (hparts : Json.Divided (Json.readStream input).values (parts.map Prod.snd))
    (schedule : Schedule) : ∃ s s' joint summaries,
    Succeeds (ingestBatch access tenant request settings schedule now input) w s joint ∧
    SucceedInTurn (parts.map fun p ↦ ingestBatch access tenant request settings p.1 now p.2) w s'
      summaries ∧
    Composes i now w w₀ (Json.readStream input).values
      (Batch.order schedule settings.window (Json.readStream input).values)
      (orderInTurn settings.window parts) s s' joint summaries := by
  have hidle := idles_of_create hcreate
  have hkeys := Ingester.equipped_of_create hcreate
  obtain ⟨joint, hjoint, hcounted⟩ := exists_succeeds hcreate hinput schedule now
  obtain ⟨hcomplete, hvalues⟩ := hparts
  rw [List.flatMap_map] at hvalues
  have hperm := order_perm schedule settings.window (Json.readStream input).values
  have hperm' : (orderInTurn settings.window parts).Perm
      (Batch.submissions (Json.readStream input).values) :=
    hvalues ▸ orderInTurn_perm settings.window parts
  rcases parts with - | ⟨part, rest⟩
  · have hnone : Summed i now [] (Json.readStream input).values w₀ [] := hvalues ▸ .nil i now w₀
    refine ⟨_, w, joint, [], hjoint, .nil w,
      composes h hidle hkeys hperm hperm' hcounted hnone hidle.1.symm ?_ fun hsome ↦ ?_⟩
    · obtain ⟨c, rfl⟩ := Ingester.exists_cache_of_create hcreate
      rfl
    · exact absurd rfl hsome
  · have hall : ∀ p ∈ part :: rest, (Json.readStream p.2).isComplete = true :=
      fun p hp ↦ hcomplete p.2 (List.mem_map_of_mem hp)
    obtain ⟨summaries, hturn, hsummed, -⟩ :=
      exists_succeedInTurn hall h.sound.form hcreate now
    exact ⟨_, _, joint, summaries, hjoint, hturn,
      composes h hidle hkeys hperm hperm' hcounted (hvalues ▸ hsummed) rfl rfl fun _ ↦ rfl⟩

end Batch

/-- **Batches compose.** An ingester can be set up in a world that the engine leads to, and the time
stands still. Two streams that are read to the end are ingested one after the other, and as one
stream, with blanks in between, whatever the schedules are. Both ways each value is counted once,
and the same values fail. If the submissions are carried out in the same order both ways, then the
same world is left behind, and the numbers of the one summary are the sums of those of the two. They
are so too if no two submissions name the same record, and then the worlds are alike. It is the same
with any stream that is read to the end, if its values are divided among any number of streams; in
particular there are streams of one value each. Whatever the schedules of the parts are, there is one
for the whole stream that carries out its submissions in the same order. Every schedule does where
the window has room for one; and in any window, if nobody is carried out early, neither in the whole
stream nor in any part of more than one value. Whenever a batch succeeds, every value of its stream
is counted once, and the number of records has grown by those inserted less those deleted, as long as
new identifiers are new. -/
theorem batches_compose (h : Reachable w) {access : Access} {tenant : TenantId}
    {request : IngestRequest} {settings : IngestSettings}
    (hcreate : (Ingester.create access tenant request settings).go w = (.ok i, w₀))
    (now : Datestamp) :
    (∀ a blank b : List Char, (Json.readStream a).isComplete = true →
      (Json.readStream b).isComplete = true → (∀ c ∈ blank, Scanner.isBlank c = true) →
      blank ≠ [] → ∀ σ τ schedule : Schedule, ∃ s₁ s s' first second joint,
        Batch.Succeeds (ingestBatch access tenant request settings σ now a) w s₁ first ∧
        Batch.Succeeds (ingestBatch access tenant request settings τ now b) s₁ s' second ∧
        Batch.Succeeds (ingestBatch access tenant request settings schedule now (a ++ blank ++ b)) w
          s joint ∧
        Json.Divided (Json.readStream (a ++ blank ++ b)).values [a, b] ∧
        Batch.Composes i now w w₀ (Json.readStream (a ++ blank ++ b)).values
          (Batch.order schedule settings.window (Json.readStream (a ++ blank ++ b)).values)
          (Batch.orderInTurn settings.window [(σ, a), (τ, b)]) s s' joint [first, second]) ∧
    (∀ input : List Char, (Json.readStream input).isComplete = true →
      (∃ pieces, Json.Divided (Json.readStream input).values pieces ∧
        ∀ piece ∈ pieces, (Json.readStream piece).values.length = 1) ∧
      ∀ parts : List (Schedule × List Char),
        Json.Divided (Json.readStream input).values (parts.map Prod.snd) →
        (∀ schedule : Schedule, ∃ s s' joint summaries,
          Batch.Succeeds (ingestBatch access tenant request settings schedule now input) w s joint ∧
          Batch.SucceedInTurn
            (parts.map fun p ↦ ingestBatch access tenant request settings p.1 now p.2) w s'
            summaries ∧
          Batch.Composes i now w w₀ (Json.readStream input).values
            (Batch.order schedule settings.window (Json.readStream input).values)
            (Batch.orderInTurn settings.window parts) s s' joint summaries) ∧
        (∃ schedule, Batch.order schedule settings.window (Json.readStream input).values
          = Batch.orderInTurn settings.window parts) ∧
        ∀ schedule : Schedule, settings.window ≤ 1 ∨ schedule = .inOrder ∧
            (∀ p ∈ parts, p.1 = .inOrder ∨ (Json.readStream p.2).values.length ≤ 1) →
          Batch.order schedule settings.window (Json.readStream input).values
            = Batch.orderInTurn settings.window parts) ∧
    ∀ schedule input s summary,
      Batch.Succeeds (ingestBatch access tenant request settings schedule now input) w s summary →
      summary.processed = (Json.readStream input).values.length ∧
      (s.ids.next < idLimit →
        s.tables.records.length + summary.deleted
          = w.tables.records.length + summary.inserted) := by
  refine ⟨fun a blank b ha hb hblank hsome σ τ schedule ↦ ?_,
    fun input hinput ↦ ⟨Json.exists_pieces input, fun parts hparts ↦
      ⟨fun schedule ↦ Batch.exists_composes h hcreate now hinput parts hparts schedule, ?_,
        fun schedule hinOrder ↦ ?_⟩⟩,
    fun schedule input s summary hsucceeds ↦ ?_⟩
  · have hjoin := Json.readStream_append ha hblank hsome b
    have hinput : (Json.readStream (a ++ blank ++ b)).isComplete = true := by
      rw [hjoin]
      exact hb
    have hparts : Json.Divided (Json.readStream (a ++ blank ++ b)).values [a, b] := by
      refine ⟨by simp [ha, hb], ?_⟩
      rw [hjoin]
      simp
    obtain ⟨s, s', joint, summaries, hjoint, hturn, hcomposes⟩ :=
      Batch.exists_composes h hcreate now hinput [(σ, a), (τ, b)] hparts schedule
    obtain ⟨s₁, first, second, rfl, hfirst, hsecond⟩ := hturn.exists_pair
    exact ⟨s₁, s, s', first, second, joint, hfirst, hsecond, hjoint, hparts, hcomposes⟩
  · rw [hparts.values_eq, List.flatMap_map]
    exact Batch.exists_order_inTurn settings.window parts
  · have hvalues : (Json.readStream input).values
        = parts.flatMap fun p ↦ (Json.readStream p.2).values := by
      rw [hparts.values_eq, List.flatMap_map]
    have hparts' : Batch.orderInTurn settings.window parts
        = Batch.submissions (Json.readStream input).values := by
      rw [hvalues]
      exact Batch.orderInTurn_eq fun p hp ↦ Batch.order_eq (hinOrder.imp_right fun h ↦ h.2 p hp)
    rw [hparts', Batch.order_eq (hinOrder.imp_right fun h ↦ Or.inl h.1)]
  · obtain ⟨rfl, hcounted⟩ := hsucceeds.counted hcreate
    refine ⟨hcounted.processed (Batch.order_perm ..), fun hids ↦ ?_⟩
    have hidle := Batch.idles_of_create hcreate
    have ho := h.orderly_of_idles hidle ((i.carry_grows now _ w₀).trans hids.le)
    rw [← hidle.1]
    exact hcounted.balanced (Ingester.carry_balanced ho hids)

namespace Sample

/-- A new record, two values that fail, and a record that goes. -/
def morning : List Char := "[\"d\",[\"v\"]] [null,[\"v\"]] 7 [\"b\",null,true]".toList

/-- The record comes back, the new one changes, and nobody knows the last one. -/
def evening : List Char :=
  "[\"b\",[\"x\"]] [\"d\",[\"w\"]] \x7b\"localId\":\"z\",\"delete\":8\x7d [\"q\",null,true]".toList

/-- The same values, each for itself. -/
def pieces : List (List Char) :=
  ["[\"d\",[\"v\"]]", "[null,[\"v\"]]", "7", "[\"b\",null,true]", "[\"b\",[\"x\"]]",
    "[\"d\",[\"w\"]]", "\x7b\"localId\":\"z\",\"delete\":8\x7d",
    "[\"q\",null,true]"].map String.toList

/-- The whole day. -/
def day : List Char := morning ++ ['\n', ' '] ++ evening

end Sample

open Sample in
/-- A day is ingested at once, in two parts, and value by value. The failures of the two parts come
in another order when they are ingested at once. They are the same also if a record of the evening
overtakes another one. -/
theorem day_composes : ∃ s₁ s s' s'' first second joint summaries joint',
    Batch.Succeeds (ingestBatch .free tenant request (settings.withWindow 3) .inOrder 7 morning)
      (run blank bridge) s₁ first ∧
    Batch.Succeeds (ingestBatch .free tenant request (settings.withWindow 3) .inOrder 7 evening)
      s₁ s second ∧
    Batch.Succeeds (ingestBatch .free tenant request (settings.withWindow 3) .inOrder 7 day)
      (run blank bridge) s joint ∧
    Batch.SucceedInTurn
      (pieces.map (ingestBatch .free tenant request (settings.withWindow 3) (overtaking 0) 7))
      (run blank bridge) s' summaries ∧
    s'.tables = s.tables ∧ s'.ids = s.ids ∧ joint.tally = first.tally + second.tally ∧
    joint.failures.Perm (first.failures ++ second.failures) ∧ joint.processed = 8 ∧
    s.tables.records.length + joint.deleted = 2 + joint.inserted ∧
    Batch.Succeeds (ingestBatch .free tenant request (settings.withWindow 3) (overtaking 6) 7 day)
      (run blank bridge) s'' joint' ∧
    joint'.failures.Perm joint.failures ∧ joint'.processed = 8 ∧
    s''.tables.records.length + joint'.deleted = 2 + joint'.inserted := by
  have hmorning : (Json.readStream morning).isComplete = true := by decide +kernel
  have hevening : (Json.readStream evening).isComplete = true := by decide +kernel
  have hday : (Json.readStream day).isComplete = true := by decide +kernel
  have hpieces : ∀ piece ∈ pieces, (Json.readStream piece).isComplete = true := by decide +kernel
  have hshort : ∀ piece ∈ pieces, (Json.readStream piece).values.length ≤ 1 := by decide +kernel
  have hblank : ∀ c ∈ ['\n', ' '], Scanner.isBlank c = true := by simp [Scanner.isBlank]
  have hvalues : (Json.readStream day).values
      = pieces.flatMap fun piece ↦ (Json.readStream piece).values := by
    set_option maxRecDepth 2000 in rfl
  have hlength : (Json.readStream day).values.length = 8 := by decide +kernel
  have hrecords : (run blank bridge).tables.records.length = 2 := by decide +kernel
  have hfew : (((Ingester.create .free tenant request (settings.withWindow 3)).go
      (run blank bridge)).1.toOption.any fun i ↦
        ([.inOrder, overtaking 6] : List Schedule).all fun schedule ↦
          (Batch.failures i 7 (Batch.order schedule 3 (Json.readStream day).values)
            (Json.readStream day).values
            ((Ingester.create .free tenant request (settings.withWindow 3)).go
              (run blank bridge)).2).length ≤ Summary.sampleLimit) = true := by
    decide +kernel
  have hids : ((ingestBatch .free tenant request (settings.withWindow 3) .inOrder 7 day).go
      (run blank bridge)).2.ids.next < idLimit := by
    decide +kernel
  have hids' : ((ingestBatch .free tenant request (settings.withWindow 3) (overtaking 6) 7 day).go
      (run blank bridge)).2.ids.next < idLimit := by
    decide +kernel
  rcases hcreate : (Ingester.create .free tenant request (settings.withWindow 3)).go
    (run blank bridge) with ⟨f | i, w₀⟩
  · rw [hcreate] at hfew
    cases hfew
  · rw [hcreate] at hfew
    simp only [Except.toOption, Option.any_some, List.all_cons, List.all_nil, Bool.and_true,
      Bool.and_eq_true, decide_eq_true_eq] at hfew
    obtain ⟨htwo, hall, hcounts⟩ := batches_compose reachable_bridge hcreate 7
    obtain ⟨s₁, s, s₂, first, second, joint, hfirst, hsecond, hjoint, hparts, hcomposes⟩ :=
      htwo morning _ evening hmorning hevening hblank (List.cons_ne_nil _ _) .inOrder .inOrder
        .inOrder
    rw [← day] at hjoint hparts hcomposes
    have hinOrder := ((hall day hday).2 [(.inOrder, morning), (.inOrder, evening)] hparts).2.2
      .inOrder (Or.inr ⟨rfl, by simp⟩)
    obtain ⟨-, -, hsame, htally⟩ := hcomposes.same hinOrder
    rw [hsame (List.cons_ne_nil _ _)] at hsecond
    -- Value by value nobody can be overtaken.
    have hmap : (pieces.map fun piece ↦ (overtaking 0, piece)).map Prod.snd = pieces := by
      rw [List.map_map]
      exact List.map_id _
    obtain ⟨heach, -, hpieceOrder⟩ := (hall day hday).2
      (pieces.map fun piece ↦ (overtaking 0, piece)) (hmap.symm ▸ ⟨hpieces, hvalues⟩)
    obtain ⟨s₃, s', joint₃, summaries, hjoint₃, hturn, hcomposes'⟩ := heach .inOrder
    obtain ⟨hs₃, hjoint₃⟩ := hjoint.unique hjoint₃
    rw [← hs₃, ← hjoint₃] at hcomposes'
    have hsingle : ∀ p ∈ pieces.map fun piece ↦ (overtaking 0, piece),
        p.1 = Schedule.inOrder ∨ (Json.readStream p.2).values.length ≤ 1 :=
      List.forall_mem_map.mpr fun piece hpiece ↦ Or.inr (hshort piece hpiece)
    obtain ⟨htables, hnext, -⟩ :=
      hcomposes'.same (hpieceOrder .inOrder (Or.inr ⟨rfl, hsingle⟩))
    rw [List.map_map] at hturn
    obtain ⟨heach', -⟩ := (hall day hday).2 [(.inOrder, day)] ⟨by simpa using hday, by simp⟩
    obtain ⟨s'', s₄, joint', summaries', hjoint', hturn', hcomposes''⟩ := heach' (overtaking 6)
    obtain ⟨hprocessed, hbalance⟩ := hcounts _ day s joint hjoint
    obtain ⟨hprocessed', hbalance'⟩ := hcounts _ day s'' joint' hjoint'
    have hlt : s.ids.next < idLimit := by
      obtain ⟨report, hgo, -⟩ := hjoint
      rwa [hgo] at hids
    have hlt' : s''.ids.next < idLimit := by
      obtain ⟨report, hgo, -⟩ := hjoint'
      rwa [hgo] at hids'
    rw [hrecords] at hbalance hbalance'
    cases hturn' with
    | cons hday' hnil =>
      cases hnil
      obtain ⟨hs₄, hjoint₄⟩ := hday'.unique hjoint
      rw [hs₄, hjoint₄] at hcomposes''
      have hfailures := hcomposes.samples (Or.inl hinOrder) hfew.1
      have hfailures' := hcomposes''.samples (Or.inr ⟨hlt', hlt⟩) hfew.2
      simp only [List.flatMap_cons, List.flatMap_nil, List.append_nil] at hfailures hfailures'
      exact ⟨s₁, s, s', s'', first, second, joint, summaries, joint', hfirst, hsecond, hjoint,
        hturn, htables, hnext, htally, hfailures, hprocessed.trans hlength, hbalance hlt, hjoint',
        hfailures', hprocessed'.trans hlength, hbalance' hlt'⟩

end RecordLinkage
