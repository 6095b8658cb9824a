import RecordLinkage.Proofs.Clustering.Assignment

/-!
# From assignments to whole operations

Ingesting a record and computing a match key anew are made of assignments, with failures caught and
attempts repeated around them. A lasting relation that successful assignments achieve, and that
storing and deleting a record achieve, is therefore respected by the operations, whatever fails on
the way.

Storing a record takes an identifier first, whether it is needed or not; `enroll` is the two
together.
-/

namespace RecordLinkage

open Work

variable {R : World → World → Prop} {now : Datestamp}

/-- What work does to the supply of identifiers: some may be taken. -/
abbrev Grows (s s' : World) : Prop := s.ids.next ≤ s'.ids.next

namespace Work

variable {α : Type} {w : Work α}

/-- Work that only reads and writes tables takes no identifiers. -/
theorem grows_statement (st : Statement α) : Respects Grows (Work.statement st) :=
  .statement Lasting.grows fun s _ _ _ ↦ Nat.le_refl s.ids.next

theorem grows_change (f : Tables → Tables) : Respects Grows (Work.change f) :=
  .change fun s ↦ Nat.le_refl s.ids.next

/-- A transaction keeps what the successful runs of its body achieve. -/
theorem Achieves.transaction (hR : Lasting R) (h : Achieves R w) (hgrows : Respects Grows w)
    (access : Access) : Respects R (Work.transaction access w) :=
  .transaction hR (h.atomically hR hgrows)

/-- A transaction that fails has used up identifiers at most. -/
theorem transaction_error {access : Access} {s s' : World} {f : Fault} (hgrows : Respects Grows w)
    (hgo : (Work.transaction access w).go s = (.error f, s')) :
    s'.tables = s.tables ∧ Grows s s' := by
  have hs := hgrows s
  rw [go_transaction] at hgo
  rcases hcheck : access.check with e | ⟨⟩
  · simp only [hcheck, Prod.mk.injEq] at hgo
    rw [← hgo.2]
    exact ⟨rfl, Nat.le_refl _⟩
  · rcases hw : w.go s with ⟨e | a, s₁⟩
    · rw [hw] at hs
      simp only [hcheck, go_atomically, hw, Prod.mk.injEq] at hgo
      rw [← hgo.2]
      exact ⟨rfl, hs⟩
    · simp only [hcheck, go_atomically, hw, Prod.mk.injEq, reduceCtorEq, false_and] at hgo

end Work

namespace Clustering

theorem assign_grows (now : Datestamp) (r : RecordId) (config : String) (values : List String) :
    Respects Grows (assign now r config values) := by
  have hL := Lasting.grows
  refine .bind hL (.bind hL (.query hL _) fun _ ↦ .bind hL (.query hL _) fun _ ↦ .pure hL _)
    fun found ↦ ?_
  rw [settle_eq]
  refine .bind hL ?_ fun a ↦ .bind hL ?_ fun _ ↦ .pure hL _
  · rw [gather]
    split
    · exact .bind hL (.mint hL) fun _ ↦ .bind hL (grows_statement _) fun _ ↦ .pure hL _
    · exact .bind hL (grows_change _) fun _ ↦ .bind hL (grows_change _) fun _ ↦ .pure hL _
  · refine .bind hL ?_ fun _ ↦ .bind hL (.forM hL _ fun _ ↦ grows_statement _) fun _ ↦
      grows_statement _
    rw [leave]
    split
    · split_ifs
      · exact grows_change _
      · exact .pure hL ()
    · exact .pure hL ()

/-! ## Computing a match key anew -/

section Rebuild

variable (recipe : Recipe) (hR : Lasting R)
  (hassign : ∀ r values, Achieves R (assign recipe.now r recipe.config values))

include hR hassign

theorem respects_reindexRecords (stats : ReindexStats) (records : List Record) :
    Respects R (reindexRecords recipe stats records) := by
  induction records generalizing stats with
  | nil => exact .pure hR stats
  | cons record rest ih =>
    refine .bind hR (.outcome ?_) fun result ↦ ih _
    -- A record that fails leaves no trace.
    refine Achieves.atomically hR ?_ ?_
    · exact .bind hR (Respects.ofExcept hR _).achieves fun values ↦
        .bind hR (hassign _ _) fun _ ↦ (Respects.pure hR _).achieves
    · exact .bind Lasting.grows (.ofExcept Lasting.grows _) fun values ↦
        .bind Lasting.grows (assign_grows _ _ _ _) fun _ ↦ .pure Lasting.grows _

theorem respects_reindexPages (pageSize pages : Nat) (place : Option RecordId)
    (stats : ReindexStats) : Respects R (reindexPages recipe pageSize place stats pages) := by
  induction pages generalizing place stats with
  | zero => exact .pure hR stats
  | succ pages ih =>
    rw [reindexPages]
    refine .bind hR (.query hR _) fun page ↦ ?_
    split
    · exact .pure hR stats
    · exact .bind hR (respects_reindexRecords recipe hR hassign _ _) fun stats ↦ ih _ stats

theorem respects_reindexAll (pageSize : Nat) : Respects R (reindexAll recipe pageSize) := by
  intro s
  change R s ((reindexPages recipe pageSize none ⟨0, 0⟩ (s.tables.records.length + 1)).go s).2
  exact respects_reindexPages recipe hR hassign _ _ _ _ s

end Rebuild

theorem reindexAll_grows (recipe : Recipe) (pageSize : Nat) :
    Respects Grows (reindexAll recipe pageSize) :=
  respects_reindexAll recipe Lasting.grows (fun _ _ ↦ (assign_grows _ _ _ _).achieves) pageSize

theorem matchKey?_id {t : Tables} {config : String} {k : MatchKey}
    (h : t.matchKey? config = .ok (some k)) : k.id = config := by
  rw [Tables.matchKey?] at h
  rcases hrow : t.matchKeys.find? (fun r ↦ r.id = config) with - | row
  · simp [hrow] at h
  · simp only [hrow, MatchKeyRow.read] at h
    have hid : row.id = config := by simpa using List.find?_some hrow
    rcases hparse : Json.parse? row.params with - | params
    · simp [hparse, Except.map] at h
    · simp only [hparse, Except.map, Except.ok.injEq, Option.some.injEq] at h
      rw [← h]
      exact hid

/-- **What its assignments achieve, computing a match key anew respects.** -/
theorem respects_rebuild (hR : Lasting R) {config : String}
    (hassign : ∀ r values, Achieves R (assign now r config values)) (access : Access)
    (handle : Handle) (limit : Nat) :
    Respects R (rebuild access handle config limit now) := by
  intro s
  rw [rebuild, go_bind, go_query]
  rcases hk : s.tables.matchKey? config with f | _ | k
  · exact hR.refl s
  · exact hR.refl s
  · obtain rfl := matchKey?_id hk
    refine Respects.bind hR (.method hR _ _) (fun kept ↦ ?_) s
    let recipe : Recipe := ⟨now, k.id, kept.method, limit⟩
    have hall := respects_reindexAll recipe hR hassign handle.pageSize
    have hcommit := hall.achieves.transaction hR (reindexAll_grows recipe handle.pageSize) access
    exact .bind hR hcommit fun _ ↦ .pure hR _

theorem rebuild_grows (access : Access) (handle : Handle) (config : String) (limit : Nat)
    (now : Datestamp) : Respects Grows (rebuild access handle config limit now) :=
  respects_rebuild Lasting.grows (fun _ _ ↦ (assign_grows _ _ _ _).achieves) access handle limit

end Clustering

/-! ## Carrying out submissions -/

namespace Ingester

/-- Stores a record under a key, with an identifier at hand in case that it is new. -/
def enroll (key : RecordKey) (payload : Json) : Work (RecordId × Cell RecordId) := do
  let candidate : RecordId := ⟨← Work.mint⟩
  let cell ← Work.statement (Tables.storeRecord candidate key payload)
  return (candidate, cell)

theorem enroll_grows (key : RecordKey) (payload : Json) :
    Respects Grows (enroll key payload) :=
  .bind Lasting.grows (.mint Lasting.grows) fun _ ↦
    .bind Lasting.grows (grows_statement _) fun _ ↦ .pure Lasting.grows _

theorem store_eq (i : Ingester) (now : Datestamp) (localId : String) (payload : Json) :
    i.store now localId payload = do
      let (candidate, cell) ← enroll (i.key localId) payload
      let record ← Work.ofExcept cell.read
      i.assignAll now record payload
      return if record = candidate then .inserted else .updated := by
  simp only [store, enroll, bind_assoc, pure_bind]

/-- Assigns a record under one match key. -/
def assignUnder (i : Ingester) (now : Datestamp) (record : RecordId) (payload : Json)
    (k : MatchKey × Method) : Work Unit := do
  let values ← Work.ofExcept (k.2.matchValues payload)
  let _ ← Clustering.assign now record k.1.id (Clustering.truncate i.limit values)

theorem assignAll_eq (i : Ingester) (now : Datestamp) (record : RecordId) (payload : Json) :
    i.assignAll now record payload = i.keys.forM (i.assignUnder now record payload) := rfl

theorem assignUnder_ok_iff {i : Ingester} {record : RecordId} {payload : Json}
    {k : MatchKey × Method} {s s' : World} :
    (i.assignUnder now record payload k).go s = (.ok (), s') ↔
      ∃ values a, k.2.matchValues payload = .ok values ∧
        (Clustering.assign now record k.1.id (Clustering.truncate i.limit values)).go s
          = (.ok a, s') := by
  rw [assignUnder, go_bind_ok]
  constructor
  · rintro ⟨values, s₁, hvalues, hgo⟩
    rw [go_ofExcept] at hvalues
    obtain ⟨hok, rfl⟩ := Prod.mk.inj hvalues
    obtain ⟨a, s₂, hassign, hgo⟩ := go_bind_ok.mp hgo
    obtain rfl := (Prod.mk.inj hgo).2
    exact ⟨values, a, hok, hassign⟩
  · rintro ⟨values, a, hvalues, hassign⟩
    refine ⟨values, s, by rw [go_ofExcept, hvalues], go_bind_ok.mpr ⟨a, s', hassign, rfl⟩⟩

/-- Storing a record that succeeds is storing the row and then assigning it. -/
theorem store_ok {i : Ingester} {localId : String} {payload : Json} {outcome : Outcome}
    {s s' : World} (hgo : (i.store now localId payload).go s = (.ok outcome, s')) :
    ∃ candidate cell r s₁, (enroll (i.key localId) payload).go s = (.ok (candidate, cell), s₁) ∧
      cell.read = .ok r ∧ (i.assignAll now r payload).go s₁ = (.ok (), s') ∧
      outcome = if r = candidate then .inserted else .updated := by
  rw [store_eq] at hgo
  obtain ⟨⟨candidate, cell⟩, s₁, henroll, hgo⟩ := go_bind_ok.mp hgo
  obtain ⟨r, s₂, hread, hgo⟩ := go_bind_ok.mp hgo
  rw [go_ofExcept] at hread
  obtain ⟨hcell, rfl⟩ := Prod.mk.inj hread
  obtain ⟨⟨⟩, s₃, hassign, hgo⟩ := go_bind_ok.mp hgo
  obtain ⟨houtcome, rfl⟩ := Prod.mk.inj hgo
  exact ⟨candidate, cell, r, s₁, henroll, hcell, hassign, (Except.ok.inj houtcome).symm⟩

/-- The body of an attempt. -/
def act (i : Ingester) (now : Datestamp) (s : Submission) (localId : String) : Work Outcome :=
  if s.delete then i.delete now localId
  else
    match s.payload with
    | some payload => i.store now localId payload
    | none => Work.fail (.validation "payload required")

theorem attempt_eq (i : Ingester) (now : Datestamp) (s : Submission) (localId : String) :
    i.attempt now s localId = Work.transaction i.access (i.act now s localId) := rfl

section Attempts

variable {i : Ingester} (hR : Lasting R)
  (hassign : ∀ k ∈ i.keys, ∀ r values, Achieves R (Clustering.assign now r k.1.id values))

include hassign

theorem achieves_assignUnder {k : MatchKey × Method} (hk : k ∈ i.keys) (record : RecordId)
    (payload : Json) : Achieves R (i.assignUnder now record payload k) := by
  intro s _ s' hgo
  obtain ⟨values, a, -, hgo'⟩ := assignUnder_ok_iff.mp hgo
  exact hassign k hk record _ hgo'

include hR

theorem achieves_assignAll (record : RecordId) (payload : Json) :
    Achieves R (i.assignAll now record payload) :=
  .forM hR _ fun _ hk ↦ achieves_assignUnder hassign hk record payload

theorem achieves_store {localId : String} {payload : Json}
    (henroll : Achieves R (enroll (i.key localId) payload)) :
    Achieves R (i.store now localId payload) := by
  rw [store_eq]
  refine .bind hR henroll fun ⟨candidate, cell⟩ ↦ ?_
  refine .bind hR (Respects.ofExcept hR _).achieves fun record ↦ ?_
  exact .bind hR (achieves_assignAll hR hassign _ _) fun _ ↦ (Respects.pure hR _).achieves

theorem achieves_act {s : Submission} {localId : String}
    (henroll : ∀ payload ∈ s.payload, Achieves R (enroll (i.key localId) payload))
    (hdelete : Achieves R (i.delete now localId)) : Achieves R (i.act now s localId) := by
  rw [act]
  split_ifs
  · exact hdelete
  · split
    · next payload hpayload => exact achieves_store hR hassign (henroll payload hpayload)
    · exact (Respects.fail hR _).achieves

end Attempts

theorem delete_grows (i : Ingester) (now : Datestamp) (localId : String) :
    Respects Grows (i.delete now localId) :=
  .bind Lasting.grows (grows_statement _) fun _ ↦ .pure Lasting.grows _

theorem store_grows (i : Ingester) (now : Datestamp) (localId : String) (payload : Json) :
    Respects Grows (i.store now localId payload) := by
  rw [store_eq]
  refine .bind Lasting.grows (enroll_grows _ _) fun ⟨candidate, cell⟩ ↦ ?_
  refine .bind Lasting.grows (.ofExcept Lasting.grows _) fun record ↦ ?_
  refine .bind Lasting.grows (.forM Lasting.grows _ fun ⟨k, method⟩ ↦ ?_) fun _ ↦
    .pure Lasting.grows _
  exact .bind Lasting.grows (.ofExcept Lasting.grows _) fun values ↦
    .bind Lasting.grows (Clustering.assign_grows _ _ _ _) fun _ ↦ .pure Lasting.grows _

theorem act_grows (i : Ingester) (now : Datestamp) (s : Submission) (localId : String) :
    Respects Grows (i.act now s localId) := by
  rw [act]
  split_ifs
  · exact i.delete_grows now localId
  · split
    · exact i.store_grows now localId _
    · exact .fail Lasting.grows _

/-- What comes of a submission: it fails, and identifiers may be gone, or one attempt succeeds. -/
theorem go_ingest (i : Ingester) (now : Datestamp) (s : Submission) (world : World) :
    (∃ f world', (i.ingest now s).go world = (.error f, world') ∧
        world'.tables = world.tables ∧ Grows world world') ∨
      ∃ localId world₁ outcome world', i.localId s = .ok localId ∧
        world₁.tables = world.tables ∧ Grows world world₁ ∧
        (i.attempt now s localId).go world₁ = (.ok outcome, world') ∧
        (i.ingest now s).go world = (.ok outcome, world') := by
  rw [ingest, go_bind, go_ofExcept]
  rcases hid : i.localId s with f | localId
  · exact Or.inl ⟨f, world, rfl, rfl, Nat.le_refl _⟩
  · dsimp only
    split_ifs
    · exact Or.inl ⟨_, world, rfl, rfl, Nat.le_refl _⟩
    · have hfail : ∀ {s₀ f s'}, (i.attempt now s localId).go s₀ = (.error f, s') →
          s'.tables = s₀.tables ∧ Grows s₀ s' := fun hgo ↦
        transaction_error (i.act_grows now s localId) hgo
      rcases go_retry hfail i.retries world with h | ⟨s₁, a, s', ht, hg, hgo, hretry⟩
      · exact Or.inl h
      · exact Or.inr ⟨localId, s₁, a, s', rfl, ht, hg, hgo, hretry⟩

/-- Setting up an ingester leaves the tables alone. -/
theorem respects_create (hR : Lasting R) (access : Access) (tenant : TenantId)
    (request : IngestRequest) (settings : IngestSettings) :
    Respects R (create access tenant request settings) := by
  refine .bind hR (.ofExcept hR _) fun path ↦ .bind hR (.query hR _) fun all ↦ ?_
  refine .bind hR (.mapM hR _ fun k ↦ ?_) fun keys ↦ .pure hR _
  exact .bind hR (.method hR tenant k) fun kept ↦ .pure hR _

/-- **What its assignments, storing and deleting achieve, a submission respects**, be it that only
its own payload is stored in such a way. -/
theorem respects_submission (hR : Lasting R) {i : Ingester} {s : Submission}
    (hassign : ∀ k ∈ i.keys, ∀ r values, Achieves R (Clustering.assign now r k.1.id values))
    (henroll : ∀ localId, ∀ payload ∈ s.payload, Achieves R (enroll (i.key localId) payload))
    (hdelete : ∀ localId, Achieves R (i.delete now localId)) : Respects R (i.ingest now s) := by
  intro world
  rcases i.go_ingest now s world with ⟨f, world', hgo, ht, hg⟩ | ⟨id, s₁, a, s', -, ht, hg, h, hgo⟩
  · rw [hgo]
    exact hR.idle ht hg
  · have hattempt : Respects R (i.attempt now s id) :=
      (achieves_act hR hassign (henroll id) (hdelete id)).transaction hR (i.act_grows now s id)
        i.access
    rw [hgo]
    exact hR.trans (hR.idle ht hg) (hattempt.achieves h)

theorem respects_ingest (hR : Lasting R) {i : Ingester}
    (hassign : ∀ k ∈ i.keys, ∀ r values, Achieves R (Clustering.assign now r k.1.id values))
    (henroll : ∀ localId payload, Achieves R (enroll (i.key localId) payload))
    (hdelete : ∀ localId, Achieves R (i.delete now localId)) (s : Submission) :
    Respects R (i.ingest now s) :=
  respects_submission hR hassign (fun localId payload _ ↦ henroll localId payload) hdelete

end Ingester

end RecordLinkage
