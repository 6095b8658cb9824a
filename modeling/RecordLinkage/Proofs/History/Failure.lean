import RecordLinkage.Proofs.Ingest.Convergence

/-!
# Failures leave no trace

Whatever is asked of a handle besides submissions is one transaction: match keys come and go, all
records of a source are deleted, clusters are cleared or computed anew. Where such a thing fails, be
it because the handle is for reading only, because somebody holds the write lock, before the
transaction begins or in the middle of it, the database is what it was. Identifiers may be gone and
methods set up, which nobody can see in the tables.

A handle for reading only lets nothing through. It is asked for the write lock last, so a failure
may have another reason; and where there is nothing to do, there is nothing to fail.
-/

namespace RecordLinkage

open Work

/-! ## Databases -/

/-- Nothing has happened to a database, except that identifiers may be gone and methods set up. -/
structure Database.Spares (d d' : Database) : Prop where
  idles : Idles d.world d'.world
  schema : d'.schema = d.schema
  handle : d'.handle = d.handle
  implicit : d'.implicit = d.implicit
  begun : d'.begun = d.begun

/-- What is asked of a handle besides submissions, by the kind of its answer. -/
inductive Maintenance : Type → Type where
  | insertMatchKey (k : MatchKey) : Maintenance Unit
  | updateMatchKey (k : MatchKey) : Maintenance Bool
  | deleteMatchKey (id : String) : Maintenance Bool
  | deleteSource (source : SourceId) (now : Datestamp) : Maintenance ℕ
  | clear (config : String) : Maintenance Unit
  | rebuild (config : String) (limit : ℕ) (now : Datestamp) : Maintenance (Option ReindexStats)

/-- There is nothing to do: the match key is not there. -/
def Maintenance.IsVoid {α : Type} (t : Tables) : Maintenance α → Prop
  | rebuild config _ _ => t.matchKey? config = .ok none
  | insertMatchKey _ | updateMatchKey _ | deleteMatchKey _ | deleteSource .. | clear _ => False

/-- Does what is asked of the handle. -/
def Database.maintain {α : Type} (d : Database) : Maintenance α → Except Fault α × Database
  | .insertMatchKey k => d.write (statement (Tables.insertMatchKey k))
  | .updateMatchKey k => d.write (update (·.updateMatchKey k))
  | .deleteMatchKey id => d.write (update (·.deleteMatchKey id))
  | .deleteSource source now => d.write (update (·.deleteSource source now))
  | .clear config => d.write (change (·.clear config))
  | .rebuild config limit now => d.run (Clustering.rebuild d.access d.handle config limit now)

namespace Database

variable {α : Type} {d d' : Database} {w : Work α}

theorem Spares.refl (d : Database) : d.Spares d := ⟨lasting_idles.refl _, rfl, rfl, rfl, rfl⟩

theorem run_eq (d : Database) (w : Work α) :
    d.run w = ((w.go d.world).1, d.settle (w.go d.world).2) := rfl

/-- A transaction that sees no change from outside does not grow older. -/
theorem settle_of_tables {world : World} (h : world.tables = d.world.tables) :
    d.settle world = { d with world } := by
  have hsame : (fun t : Transaction ↦ t.outdate (decide (world.tables ≠ d.world.tables))) = id := by
    funext t
    rw [h, Transaction.outdate]
    simp
  rw [settle]
  simp only [hsame, Option.map_id, id_eq]

/-- Work that leaves the tables alone leaves the database alone. -/
theorem run_spares (h : Idles d.world (w.go d.world).2) : d.Spares (d.run w).2 := by
  rw [run_eq, settle_of_tables h.1]
  exact ⟨h, rfl, rfl, rfl, rfl⟩

/-- Work that does nothing at all. -/
theorem run_of_go {answer : Except Fault α} (h : w.go d.world = (answer, d.world)) :
    d.run w = (answer, d) := by
  rw [run_eq, h, settle_of_tables rfl]

/-- Work of which a failure leaves no trace. -/
theorem run_error {f : Fault} (h : d.run w = (.error f, d'))
    (hw : ∀ {world}, w.go d.world = (.error f, world) → Idles d.world world) : d.Spares d' := by
  rw [run_eq, Prod.mk.injEq] at h
  obtain ⟨hanswer, rfl⟩ := h
  exact run_spares (hw (Prod.ext hanswer rfl))

/-- **A change that fails has not happened.** -/
theorem write_error (hgrows : Respects Grows w) {f : Fault} (h : d.write w = (.error f, d')) :
    d.Spares d' :=
  run_error h fun hgo ↦ transaction_error hgrows hgo

end Database

/-! ## Computing a match key anew -/

section Rebuild

variable {access : Access} {handle : Handle} {config : String} {limit : ℕ} {now : Datestamp}
  {s s' : World}

theorem go_rebuild_none (h : s.tables.matchKey? config = .ok none) :
    (Clustering.rebuild access handle config limit now).go s = (.ok none, s) := by
  rw [Clustering.rebuild, go_bind, go_query, h]
  rfl

/-- What may have happened before the transaction: the method was set up. -/
theorem go_rebuild_cases (access : Access) (handle : Handle) (config : String) (limit : ℕ)
    (now : Datestamp) (s : World) :
    (s.tables.matchKey? config = .ok none) ∨
    (∃ f s', (Clustering.rebuild access handle config limit now).go s = (.error f, s') ∧
      Idles s s') ∨
    ∃ recipe s₁, Idles s s₁ ∧ (Clustering.rebuild access handle config limit now).go s
      = (transaction access (Clustering.reindexAll recipe handle.pageSize) >>=
          fun stats ↦ pure (some stats)).go s₁ := by
  rw [Clustering.rebuild, go_bind, go_query]
  rcases s.tables.matchKey? config with f | _ | k
  · exact Or.inr (Or.inl ⟨f, s, rfl, lasting_idles.refl s⟩)
  · exact Or.inl rfl
  · simp only
    rw [go_bind, go_method]
    rcases s.cache.get handle.tenant k with ⟨f | kept, cache⟩
    · exact Or.inr (Or.inl ⟨f, _, rfl, rfl, le_rfl⟩)
    · refine Or.inr (Or.inr ⟨⟨now, k.id, kept.method, limit⟩, { s with cache }, ?_, rfl⟩)
      exact ⟨rfl, le_rfl⟩

/-- **A match key that could not be computed anew is what it was.** -/
theorem rebuild_error {f : Fault}
    (h : (Clustering.rebuild access handle config limit now).go s = (.error f, s')) :
    Idles s s' := by
  rcases go_rebuild_cases access handle config limit now s with
    hnone | ⟨f', s₁, hgo, hidles⟩ | ⟨recipe, s₁, hidles, hgo⟩
  · rw [go_rebuild_none hnone] at h
    cases h
  · rw [hgo] at h
    obtain ⟨-, rfl⟩ := Prod.mk.inj h
    exact hidles
  · rw [hgo, go_bind] at h
    rcases htransaction : (transaction access
        (Clustering.reindexAll recipe handle.pageSize)).go s₁ with ⟨f' | stats, s₂⟩
    · rw [htransaction] at h
      obtain ⟨-, rfl⟩ := Prod.mk.inj h
      have hgrows := Clustering.reindexAll_grows recipe handle.pageSize
      exact lasting_idles.trans hidles (transaction_error hgrows htransaction)
    · rw [htransaction] at h
      cases h

end Rebuild

/-- **What is asked of a handle and fails leaves no trace.** -/
theorem Database.maintain_error {α : Type} {d d' : Database} {task : Maintenance α} {f : Fault}
    (h : d.maintain task = (.error f, d')) : d.Spares d' := by
  cases task with
  | insertMatchKey | updateMatchKey | deleteMatchKey | deleteSource =>
    exact write_error (grows_statement _) h
  | clear => exact write_error (grows_change _) h
  | rebuild config limit now =>
    exact run_error (w := Clustering.rebuild d.access d.handle config limit now) h rebuild_error

/-! ## Reading only -/

section ReadOnly

variable {α : Type} {access : Access}

theorem go_transaction_readOnly (h : access.readOnly = true) (w : Work α) (s : World) :
    (transaction access w).go s = (.error .readOnly, s) := by
  rw [go_transaction, Access.check, if_pos h]

theorem go_rebuild_readOnly (h : access.readOnly = true) {handle : Handle} {config : String}
    {limit : ℕ} {now : Datestamp} {s : World} (hkey : s.tables.matchKey? config ≠ .ok none) :
    ∃ f s', (Clustering.rebuild access handle config limit now).go s = (.error f, s') := by
  rcases go_rebuild_cases access handle config limit now s with
    hnone | ⟨f, s', hgo, -⟩ | ⟨recipe, s₁, -, hgo⟩
  · exact absurd hnone hkey
  · exact ⟨f, s', hgo⟩
  · rw [go_bind, go_transaction_readOnly h] at hgo
    exact ⟨_, _, hgo⟩

/-- Attempts that fail in the same way fail in this way in the end. -/
theorem go_retry_error {w : Work α} {f : Fault} {s : World} (h : w.go s = (.error f, s))
    (retries : ℕ) : go (ExceptT.mk (retry retries fun _ ↦ w.run)) s = (.error f, s) := by
  change retryFrom (fun _ ↦ w.run) 0 retries s = (.error f, s)
  generalize 0 = attempt
  induction retries generalizing attempt with
  | zero => exact h
  | succ left ih =>
    rw [retryFrom_succ, h]
    dsimp only
    split_ifs
    · exact ih (attempt + 1)
    · rfl

namespace Ingester

variable {i : Ingester} (h : i.access.readOnly = true) (now : Datestamp)

/-- A submission that the store is asked for: it says which record, and what to do with it. -/
def Reaches (i : Ingester) (submission : Submission) : Prop :=
  (∃ localId, i.localId submission = .ok localId) ∧
    (submission.delete = true ∨ submission.payload.isSome = true)

include h

/-- **Through a handle for reading only, no submission succeeds**, and nothing happens. -/
theorem go_ingest_readOnly (submission : Submission) (s : World) : ∃ f,
    (i.ingest now submission).go s = (.error f, s) ∧ (i.Reaches submission → f = .readOnly) := by
  rw [ingest, go_bind, go_ofExcept]
  rcases hid : i.localId submission with f | localId
  · refine ⟨f, rfl, fun hreaches ↦ ?_⟩
    obtain ⟨localId, hlocalId⟩ := hreaches.1
    cases hid.symm.trans hlocalId
  · dsimp only
    split_ifs with hempty
    · refine ⟨_, rfl, fun hreaches ↦ ?_⟩
      rcases hreaches.2 with hdelete | hpayload
      · simp [hdelete] at hempty
      · simp [Option.isSome_iff_ne_none.mp hpayload] at hempty
    · have hattempt := go_transaction_readOnly h (i.act now submission localId) s
      exact ⟨_, go_retry_error hattempt i.retries, fun _ ↦ rfl⟩

theorem carry_readOnly (submissions : List Submission) (s : World) :
    (i.carry now submissions s).2 = s ∧
      i.tally now submissions s = submissions.length • Outcome.ignored.tally := by
  induction submissions with
  | nil => exact ⟨rfl, rfl⟩
  | cons submission rest ih =>
    obtain ⟨f, hgo, -⟩ := go_ingest_readOnly h now submission s
    rw [carry_cons, tally_cons, hgo, List.length_cons, succ_nsmul']
    exact ⟨ih.1, congrArg (_ + ·) ih.2⟩

end Ingester

end ReadOnly

/-- An ingester is handed what stands in the way of writing. -/
theorem Ingester.access_of_create {access : Access} {tenant : TenantId} {request : IngestRequest}
    {settings : IngestSettings} {i : Ingester} {s s' : World}
    (h : (create access tenant request settings).go s = (.ok i, s')) : i.access = access := by
  obtain ⟨path, s₁, -, h⟩ := go_bind_ok.mp h
  obtain ⟨all, s₂, -, h⟩ := go_bind_ok.mp h
  obtain ⟨keys, s₃, -, h⟩ := go_bind_ok.mp h
  rw [← Except.ok.inj (Prod.mk.inj h).1]

/-- **Through a handle for reading only, a batch ignores everything**, and nothing happens. -/
theorem go_ingestBatch_readOnly {access : Access} (h : access.readOnly = true) (tenant : TenantId)
    (request : IngestRequest) (settings : IngestSettings) (schedule : Schedule) (now : Datestamp)
    (input : List Char) (s : World) : ∃ report s',
      (ingestBatch access tenant request settings schedule now input).go s
        = (.ok report, s') ∧ Idles s s' ∧
      ∀ i s₀, (Ingester.create access tenant request settings).go s = (.ok i, s₀) →
        (Json.readStream input).isComplete = true → ∃ summary, report.result = .ok summary ∧
          summary.tally = (Json.readStream input).values.length • Outcome.ignored.tally := by
  have hidles := Ingester.respects_create lasting_idles access tenant request settings s
  rcases hcreate : (Ingester.create access tenant request settings).go s with ⟨f | i, s₀⟩
  · rw [hcreate] at hidles
    obtain ⟨report, hgo, -⟩ := go_ingestBatch_error hcreate schedule now input
    exact ⟨report, s₀, hgo, hidles, fun i s₁ hother ↦ nomatch hother⟩
  · rw [hcreate] at hidles
    have hreadOnly : i.access.readOnly = true := Ingester.access_of_create hcreate ▸ h
    obtain ⟨b, hgo, hcounted⟩ := go_ingestBatch hcreate schedule now input
    obtain ⟨hsame, hignored⟩ := Ingester.carry_readOnly hreadOnly now
      (Batch.order schedule settings.window (Json.readStream input).values) s₀
    rw [hsame] at hgo
    refine ⟨_, s₀, hgo, hidles, fun i' s₁ _ hcomplete ↦ ?_⟩
    refine ⟨b.flow.summary, by rw [Batch.report, hcomplete, if_pos rfl], ?_⟩
    rw [hcounted.tally, hignored, ← add_nsmul, (Batch.order_perm ..).length_eq,
      Batch.length_submissions]

/-- What has something to do fails through a handle for reading only. -/
theorem Database.maintain_readOnly {α : Type} {d : Database} (h : d.handle.readOnly = true)
    {task : Maintenance α} (htask : ¬task.IsVoid d.world.tables) :
    ∃ f d', d.maintain task = (.error f, d') := by
  have hwrite {β : Type} (w : Work β) : d.write w = (.error .readOnly, d) :=
    run_of_go (go_transaction_readOnly h w d.world)
  cases task with
  | insertMatchKey | updateMatchKey | deleteMatchKey | deleteSource | clear =>
    exact ⟨_, _, hwrite _⟩
  | rebuild config limit now =>
    have haccess : d.access.readOnly = true := h
    obtain ⟨f, s', hgo⟩ := go_rebuild_readOnly haccess htask
    refine ⟨f, d.settle s', ?_⟩
    rw [maintain, run_eq, hgo]

/-- **Failures leave no trace.** Whatever stands in the way, an operation of the handle that fails
leaves all tables as they were, those of open transactions included. A handle for reading only
refuses each operation that has something to do, and every submission, with the reason that it is
for reading only if the store was asked at all; and a batch that could be set up and read through
such a handle is summed up with every value ignored. A match key that is not there is no failure. -/
theorem failures_leave_no_trace (d : Database) :
    (∀ (α : Type) (task : Maintenance α) f d', d.maintain task = (.error f, d') → d.Spares d') ∧
    (∀ config limit now, d.world.tables.matchKey? config = .ok none →
      d.maintain (.rebuild config limit now) = (.ok none, d)) ∧
    (d.handle.readOnly = true →
      (∀ (α : Type) (task : Maintenance α), ¬task.IsVoid d.world.tables →
        ∃ f d', d.maintain task = (.error f, d') ∧ d.Spares d') ∧
      (∀ i : Ingester, i.access = d.access → ∀ now submission, ∃ f,
        d.run (i.ingest now submission) = (.error f, d) ∧
          (i.Reaches submission → f = .readOnly)) ∧
      ∀ request settings schedule now input, ∃ report d',
        d.run (ingestBatch d.access d.handle.tenant request settings schedule now input)
          = (.ok report, d') ∧ d.Spares d' ∧
        ∀ i s₀, (Ingester.create d.access d.handle.tenant request settings).go d.world
            = (.ok i, s₀) → (Json.readStream input).isComplete = true →
          ∃ summary, report.result = .ok summary ∧
            summary.processed = (Json.readStream input).values.length ∧
            summary.ignored = (Json.readStream input).values.length ∧
            summary.inserted = 0 ∧ summary.updated = 0 ∧ summary.deleted = 0) := by
  refine ⟨fun α task f d' h ↦ d.maintain_error h, ?_, fun hreadOnly ↦ ⟨?_, ?_, ?_⟩⟩
  · exact fun config limit now hkey ↦ d.run_of_go (go_rebuild_none hkey)
  · intro α task hvoid
    obtain ⟨f, d', h⟩ := d.maintain_readOnly hreadOnly hvoid
    exact ⟨f, d', h, d.maintain_error h⟩
  · intro i hi now submission
    obtain ⟨f, hgo, hreaches⟩ :=
      i.go_ingest_readOnly (hi ▸ hreadOnly) now submission d.world
    exact ⟨f, d.run_of_go hgo, hreaches⟩
  · intro request settings schedule now input
    have haccess : d.access.readOnly = true := hreadOnly
    obtain ⟨report, s', hgo, hidles, hsummary⟩ := go_ingestBatch_readOnly haccess
      d.handle.tenant request settings schedule now input d.world
    refine ⟨report, { d with world := s' }, ?_, ⟨hidles, rfl, rfl, rfl, rfl⟩, ?_⟩
    · rw [d.run_eq, hgo, d.settle_of_tables hidles.1]
    intro i s₀ hi hcomplete
    obtain ⟨summary, hreport, htally⟩ := hsummary i s₀ hi hcomplete
    refine ⟨summary, hreport, ?_⟩
    simpa [Summary.tally, Outcome.tally] using htally

namespace Sample

/-- A library that is open for reading only. -/
def archive : Database := .new (run blank bridge) (.reading tenant)

/-- The same library for reading and writing. -/
def desk : Database := .new (run blank bridge) (.writing tenant 50)

end Sample

open Sample in
/-- A match key cannot be deleted from an archive, and one that is not there cannot be computed. Of
five values none is stored. Even where writing is possible, a match key is not inserted twice. -/
theorem archive_keeps_its_tables : ∃ f d' f' d'' report e,
    archive.maintain (.deleteMatchKey "isbn") = (.error f, d') ∧ archive.Spares d' ∧
    archive.maintain (.rebuild "issn" 600 7) = (.ok none, archive) ∧
    desk.maintain (.insertMatchKey isbn) = (.error f', d'') ∧ desk.Spares d'' ∧
    archive.run (ingestBatch archive.access tenant request settings .inOrder 7 batch) = (.ok report, e) ∧
      archive.Spares e ∧ ∃ summary, report.result = .ok summary ∧ summary.ignored = 5 := by
  obtain ⟨-, hvoid, hreading⟩ := failures_leave_no_trace archive
  obtain ⟨htasks, -, hbatch⟩ := hreading rfl
  obtain ⟨hfailure, -, -⟩ := failures_leave_no_trace desk
  obtain ⟨f, d', hdelete, hspares⟩ := htasks Bool (.deleteMatchKey "isbn") id
  have hmissing : archive.world.tables.matchKey? "issn" = .ok none := by
    have hnone : (archive.world.tables.matchKeys.find? fun r ↦ r.id = "issn").isNone = true := by
      decide +kernel
    rw [Tables.matchKey?, Option.isNone_iff_eq_none.mp hnone]
  have hthere : (desk.maintain (.insertMatchKey isbn)).1.isOk = false := by
    decide +kernel
  have hcreated : ((Ingester.create archive.access tenant request settings).go
      archive.world).1.isOk = true := by
    decide +kernel
  obtain ⟨report, e, hgo, hsame, hsummary⟩ := hbatch request settings .inOrder 7 batch
  rcases hinsert : desk.maintain (.insertMatchKey isbn) with ⟨f' | _, d''⟩
  · rcases hcreate : (Ingester.create archive.access tenant request settings).go archive.world with
      ⟨f'' | i, s₀⟩
    · rw [hcreate] at hcreated
      cases hcreated
    · obtain ⟨summary, hreport, -, hignored, -⟩ := hsummary i s₀ hcreate (by decide +kernel)
      have hfive : (Json.readStream batch).values.length = 5 := by decide +kernel
      exact ⟨f, d', f', d'', report, e, hdelete, hspares, hvoid "issn" 600 7 hmissing, rfl,
        hfailure Unit _ f' d'' hinsert, hgo, hsame, summary, hreport, hignored.trans hfive⟩
  · rw [hinsert] at hthere
    cases hthere

end RecordLinkage
