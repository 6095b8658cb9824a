import RecordLinkage.Proofs.Clustering.CleanRebuild
import RecordLinkage.Proofs.Clustering.References
import RecordLinkage.Proofs.Ingest.Convergence
import RecordLinkage.Proofs.Ingest.SetupAgain
import RecordLinkage.Proofs.Json.RoundTrip

/-!
# Tables that can be used

The store takes every match key and every payload. What can be done with them later is another
matter: parameters and payloads are kept as text, and a match key is of use only if its parameters
can be read and its method can be set up from them.

A world can be used when it is in order, its match keys are valid and its payloads can be read. It
stays so as long as match keys are checked before they are stored, and payloads and parameters come
from texts. In such a world an ingester can be set up whatever the match keys are, and a match key
that is there can be computed anew, with no record failing.
-/

namespace RecordLinkage

open Clustering Work Tables

variable {s s' : World} {t t' : Tables} {k : MatchKey} {config : String}

/-! ## Match keys that are stored -/

/-- Parameters are as good after they were stored as before. -/
theorem MatchKey.validate_reread (k : MatchKey) :
    ({ k with params := k.params.reread } : MatchKey).validate = k.validate := by
  simp only [validate, createMethod, Method.create, Json.text_of_reread]

theorem MatchKey.exists_method (h : k.validate = .ok ()) : ∃ m, k.createMethod = .ok m := by
  rw [validate] at h
  split_ifs at h
  rcases hmethod : k.createMethod with f | m
  · rw [hmethod] at h
    cases h
  · exact ⟨m, rfl⟩

/-- The match key of a row can be read, and is valid. -/
def MatchKeyRow.Valid (row : MatchKeyRow) : Prop := ∃ k, row.read = .ok k ∧ k.validate = .ok ()

/-- **A valid match key is valid when it is read again**, if its parameters come from a text. -/
theorem MatchKeyRow.valid_ofMatchKey (hvalid : k.validate = .ok ()) (hparams : k.params.Storable) :
    (ofMatchKey k).Valid := by
  refine ⟨{ k with params := k.params.reread }, ?_, k.validate_reread.trans hvalid⟩
  rw [read, ofMatchKey, Json.parse_text hparams]

namespace Tables

section Missing

variable (h : t.hasMatchKey config = false)

include h

theorem id_ne_of_hasMatchKey {row : MatchKeyRow} (hrow : row ∈ t.matchKeys) : row.id ≠ config := by
  intro hid
  have hthere := hasMatchKey_iff.mpr ⟨row, hrow, hid⟩
  rw [h] at hthere
  cases hthere

theorem matchKey?_eq_none : t.matchKey? config = .ok none := by
  have hnone : t.matchKeys.find? (fun row ↦ row.id = config) = none :=
    List.find?_eq_none.mpr fun row hrow ↦ by simpa using id_ne_of_hasMatchKey h hrow
  rw [matchKey?, hnone]

/-- A match key that is not there is not updated. -/
theorem updateMatchKey_eq_self (hk : k.id = config) : (t.updateMatchKey k).2 = t := by
  have hrows : t.matchKeys.map (fun row ↦ if row.id = k.id then .ofMatchKey k else row)
      = t.matchKeys := by
    conv_rhs => rw [← List.map_id t.matchKeys]
    refine List.map_congr_left fun row hrow ↦ if_neg ?_
    rw [hk]
    exact id_ne_of_hasMatchKey h hrow
  rw [updateMatchKey, hrows]

/-- Nothing was computed for a match key that is not there. -/
theorem Wellformed.clear_eq_self (hform : t.Wellformed) : t.clear config = t := by
  have hne {c : String} (hc : t.hasMatchKey c = true) : c ≠ config := by
    rintro rfl
    rw [h] at hc
    cases hc
  have hmarks : t.marks.filter (fun m ↦ m.config ≠ config) = t.marks :=
    List.filter_eq_self.mpr fun m hm ↦ decide_eq_true (hne (hform.mark_config m hm))
  have howners : t.owners.filter (fun o ↦ o.config ≠ config) = t.owners :=
    List.filter_eq_self.mpr fun o ho ↦ decide_eq_true (hne (hform.owner_config o ho))
  have hmembers : t.members.filter (fun m ↦ m.config ≠ config) = t.members :=
    List.filter_eq_self.mpr fun m hm ↦ decide_eq_true (hne (hform.member_config m hm))
  rw [Tables.clear, hmarks, howners, hmembers]

/-- A match key that is not there is not deleted. -/
theorem Wellformed.deleteMatchKey_eq_self (hform : t.Wellformed) :
    (t.deleteMatchKey config).2 = t := by
  have hrows : t.matchKeys.filter (fun row ↦ row.id ≠ config) = t.matchKeys :=
    List.filter_eq_self.mpr fun row hrow ↦ decide_eq_true (id_ne_of_hasMatchKey h hrow)
  rw [Tables.deleteMatchKey, hform.clear_eq_self h, hrows]

end Missing

/-- A match key that is there is found, and its method can be set up. -/
theorem exists_matchKey? (hvalid : ∀ row ∈ t.matchKeys, row.Valid)
    (h : t.hasMatchKey config = true) :
    ∃ k m, t.matchKey? config = .ok (some k) ∧ k.createMethod = .ok m := by
  obtain ⟨row, hrow⟩ : ∃ row, t.matchKeys.find? (fun row ↦ row.id = config) = some row := by
    rw [← Option.isSome_iff_exists, List.find?_isSome]
    obtain ⟨row, hrow, hid⟩ := hasMatchKey_iff.mp h
    exact ⟨row, hrow, decide_eq_true hid⟩
  obtain ⟨k, hread, hk⟩ := hvalid row (List.mem_of_find?_eq_some hrow)
  obtain ⟨m, hm⟩ := MatchKey.exists_method hk
  refine ⟨k, m, ?_, hm⟩
  rw [matchKey?, hrow]
  exact congrArg (Except.map some) hread

/-- All match keys are listed, and the method of each can be set up. -/
theorem exists_listMatchKeys (hvalid : ∀ row ∈ t.matchKeys, row.Valid) :
    ∃ all, t.listMatchKeys = .ok all ∧ ∀ k ∈ all, ∃ m, k.createMethod = .ok m := by
  have hmem {row : MatchKeyRow}
      (hrow : row ∈ Sorted.sortBy (fun a b ↦ a.id < b.id) t.matchKeys) : row.Valid :=
    hvalid row ((Sorted.sortBy_perm t.matchKeys).mem_iff.mp hrow)
  obtain ⟨all, hall⟩ := exists_mapM_ok_iff.mpr fun row hrow ↦
    (hmem hrow).imp fun k hk ↦ hk.1
  refine ⟨all, hall, fun k hk ↦ ?_⟩
  obtain ⟨row, hrow, hread⟩ := exists_row_of_mapM hall hk
  obtain ⟨k', hread', hk'⟩ := hmem hrow
  obtain rfl := Except.ok.inj (hread.symm.trans hread')
  exact MatchKey.exists_method hk'

end Tables

/-! ## What is stored from a batch -/

namespace Submission

/-- The fields of a value that a text can give are such values. -/
theorem storable_of_fields {names : List String} {v w : Json} (hv : v.Storable)
    {given : List (Option Json)} (hgiven : v.fields? names = some given) (hw : some w ∈ given) :
    w.Storable := by
  cases v with
  | object fields =>
    obtain rfl := Option.some.inj hgiven
    obtain ⟨name, -, hname⟩ := List.mem_map.mp hw
    obtain ⟨field, hfield, rfl⟩ := Option.map_eq_some_iff.mp hname
    exact hv.field (List.mem_of_find?_eq_some hfield)
  | array items =>
    rw [Json.fields?] at hgiven
    split_ifs at hgiven
    obtain rfl := Option.some.inj hgiven
    rcases List.mem_append.mp hw with hw | hw
    · exact hv.item ((List.mem_map_of_injective (Option.some_injective Json)).mp hw)
    · cases List.eq_of_mem_replicate hw
  | _ => cases hgiven

/-- What a submission wants to store is a part of the value that it was read from. -/
theorem mem_of_ofFields {given : List (Option Json)} {submission : Submission} {payload : Json}
    (h : ofFields? given = some submission) (hpayload : payload ∈ submission.payload) :
    some payload ∈ given := by
  unfold ofFields? at h
  split at h
  · next localId value delete =>
    obtain ⟨localId', -, h⟩ := Option.bind_eq_some_iff.mp h
    obtain ⟨delete', -, h⟩ := Option.bind_eq_some_iff.mp h
    obtain rfl := Option.some.inj h
    have hvalue : value = some payload := by
      change Json.optionalValue value = some payload at hpayload
      unfold Json.optionalValue at hpayload
      split at hpayload
      · cases hpayload
      · cases hpayload
      · exact hpayload
    rw [hvalue]
    simp
  · cases h

/-- **The payloads of a batch come from its text.** -/
theorem storable_payload {cs : List Char} {submission : Submission} {payload : Json}
    (h : submission ∈ Batch.submissions (Json.readStream cs).values)
    (hpayload : payload ∈ submission.payload) : payload.Storable := by
  obtain ⟨v, hv, hread⟩ := List.mem_filterMap.mp h
  rw [ofJson] at hread
  split at hread
  · next hfound =>
    obtain ⟨given, hgiven, hfields⟩ := Option.bind_eq_some_iff.mp hfound
    obtain rfl := Option.some.inj hread
    exact storable_of_fields (Json.storable_of_mem_stream hv) hgiven
      (mem_of_ofFields hfields hpayload)
  · cases hread

end Submission

/-! ## Worlds that can be used -/

/-- A world in order whose match keys are valid and whose payloads can be read. -/
structure World.Usable (s : World) : Prop where
  orderly : s.Orderly
  valid : ∀ row ∈ s.tables.matchKeys, row.Valid
  readable : ∀ row ∈ s.tables.records, Readable row

/-- A world that can be used stays so, as long as identifiers fit into their columns. -/
def KeepsUsable (s s' : World) : Prop :=
  Grows s s' ∧ (s'.ids.next ≤ idLimit → s.Usable → s'.Usable)

theorem lasting_keepsUsable : Lasting KeepsUsable where
  trans h h' := ⟨h.1.trans h'.1, fun hb hu ↦ h'.2 hb (h.2 (h'.1.trans hb) hu)⟩
  idle htables hg := ⟨hg, fun hb hu ↦ {
    orderly := (lasting_keepsOrder.idle htables hg).2 hb hu.orderly
    valid := htables ▸ hu.valid
    readable := htables ▸ hu.readable }⟩

theorem World.usable_of_empty (h : s.tables = .empty) : s.Usable where
  orderly := World.orderly_of_empty h
  valid row hrow := by simp [h, Tables.empty] at hrow
  readable row hrow := by simp [h, Tables.empty] at hrow

/-- A statement that marks no cluster, stores no record and adds only match keys that are valid. -/
theorem respects_keepsUsable_statement {α : Type} {st : Statement α}
    (h : ∀ t a t', t.Wellformed → st t = .ok (a, t') → t'.Wellformed ∧
      (∀ m ∈ t'.marks, ∃ m₀ ∈ t.marks, m.cluster = m₀.cluster) ∧
      (∀ row ∈ t'.records, row ∈ t.records) ∧
      ∀ row ∈ t'.matchKeys, row ∈ t.matchKeys ∨ row.Valid) :
    Respects KeepsUsable (Work.statement st) := by
  refine .statement lasting_keepsUsable fun s a t hst ↦ ⟨Nat.le_refl _, fun hb hu ↦ ?_⟩
  obtain ⟨hform, hmarks, hrecords, hkeys⟩ := h _ _ _ hu.orderly.form hst
  refine ⟨hu.orderly.of_tables hform hmarks ?_, fun row hrow ↦ ?_, fun row hrow ↦ ?_⟩
  · rintro r ⟨row, hrow, hid⟩
    exact ⟨row, hrecords row hrow, hid⟩
  · exact (hkeys row hrow).elim (hu.valid row) id
  · exact hu.readable row (hrecords row hrow)

/-- An assignment that succeeds. -/
theorem assign_keepsUsable (now : Datestamp) (r : RecordId) (config : String)
    (values : List String) : Achieves KeepsUsable (assign now r config values) := by
  intro s a s' hgo
  obtain ⟨hgrows, horder⟩ := assign_keepsOrder now r config values hgo
  refine ⟨hgrows, fun hb hu ↦ ?_⟩
  obtain ⟨-, hrecords, hkeys⟩ := assign_keepsRecords now r config values hgo hu.orderly.form
  exact ⟨horder hb hu.orderly, hkeys ▸ hu.valid, hrecords ▸ hu.readable⟩

theorem Ingester.enroll_keepsUsable (key : RecordKey) {payload : Json} (h : payload.Storable) :
    Achieves KeepsUsable (enroll key payload) := by
  intro s result s' hgo
  obtain ⟨hgrows, horder⟩ := enroll_keepsOrder key payload hgo
  obtain ⟨t, -, rfl, hst⟩ := enroll_ok hgo
  refine ⟨hgrows, fun hb hu ↦ ?_⟩
  obtain ⟨-, -, -, hkeys⟩ := storeRecord_frame hst
  refine ⟨horder hb hu.orderly, hkeys ▸ hu.valid, fun row hrow ↦ ?_⟩
  -- The payload stands in the row of a record that was there, or in a new one.
  have hpayload : Json.parse? payload.text = some payload.reread := Json.parse_text h
  rcases storeRecord_ok_iff.mp hst with ⟨-, -, -, rfl⟩ | ⟨-, -, -, rfl⟩
  · obtain ⟨row₀, hrow₀, rfl⟩ := List.mem_map.mp hrow
    rw [repaid]
    split_ifs
    · exact ⟨_, hpayload⟩
    · exact hu.readable row₀ hrow₀
  · rcases List.mem_append.mp hrow with hrow | hrow
    · exact hu.readable row hrow
    · rw [List.mem_singleton.mp hrow]
      exact ⟨_, hpayload⟩

/-! ## What is done to them -/

/-- What leaves match keys and the rows of records alone, or takes some of them away. -/
theorem deleteRecords_keepsUsable {α : Type} {f : Tables → α × Tables} (fits : RecordRow → Bool)
    (now : Datestamp) (hf : ∀ t, (f t).2 = (t.deleteRecords fits now).2) :
    Respects KeepsUsable (update f) := by
  refine respects_keepsUsable_statement fun t a t' hform hst ↦ ?_
  obtain rfl : (f t).2 = t' := (Prod.mk.inj (Except.ok.inj hst)).2
  rw [hf]
  exact ⟨hform.deleteRecords fits now, fun m ↦ Tables.exists_cluster_of_deleteRecords,
    fun row hrow ↦ List.mem_of_mem_filter hrow, fun row hrow ↦ .inl hrow⟩

theorem insertMatchKey_keepsUsable (hvalid : k.validate = .ok ()) (hparams : k.params.Storable) :
    Respects KeepsUsable (statement (Tables.insertMatchKey k)) := by
  refine respects_keepsUsable_statement fun t a t' hform hst ↦ ?_
  have hform' := hform.insertMatchKey hst
  obtain ⟨-, rfl⟩ := insertMatchKey_ok_iff.mp hst
  refine ⟨hform', fun m hm ↦ ⟨m, hm, rfl⟩, fun row hrow ↦ hrow, fun row hrow ↦ ?_⟩
  refine (List.mem_append.mp hrow).imp id fun hnew ↦ ?_
  rw [List.mem_singleton.mp hnew]
  exact MatchKeyRow.valid_ofMatchKey hvalid hparams

theorem updateMatchKey_keepsUsable (hvalid : k.validate = .ok ()) (hparams : k.params.Storable) :
    Respects KeepsUsable (update fun t ↦ t.updateMatchKey k) := by
  refine respects_keepsUsable_statement fun t a t' hform hst ↦ ?_
  obtain rfl : (t.updateMatchKey k).2 = t' := (Prod.mk.inj (Except.ok.inj hst)).2
  refine ⟨hform.updateMatchKey k, fun m hm ↦ ⟨m, hm, rfl⟩, fun row hrow ↦ hrow, fun row hrow ↦ ?_⟩
  obtain ⟨row₀, hrow₀, rfl⟩ := List.mem_map.mp hrow
  split_ifs
  · exact .inr (MatchKeyRow.valid_ofMatchKey hvalid hparams)
  · exact .inl hrow₀

theorem clear_keepsUsable (config : String) :
    Respects KeepsUsable (change fun t ↦ t.clear config) := by
  have hupdate : Respects KeepsUsable (update fun t ↦ ((), t.clear config)) := by
    refine respects_keepsUsable_statement fun t a t' hform hst ↦ ?_
    obtain rfl : t.clear config = t' := (Prod.mk.inj (Except.ok.inj hst)).2
    exact ⟨hform.clear config, fun m hm ↦ ⟨m, List.mem_of_mem_filter hm, rfl⟩,
      fun row hrow ↦ hrow, fun row hrow ↦ .inl hrow⟩
  exact hupdate

theorem deleteMatchKey_keepsUsable (config : String) :
    Respects KeepsUsable (update fun t ↦ t.deleteMatchKey config) := by
  refine respects_keepsUsable_statement fun t a t' hform hst ↦ ?_
  obtain rfl : (t.deleteMatchKey config).2 = t' := (Prod.mk.inj (Except.ok.inj hst)).2
  exact ⟨hform.deleteMatchKey config, fun m hm ↦ ⟨m, List.mem_of_mem_filter hm, rfl⟩,
    fun row hrow ↦ hrow, fun row hrow ↦ .inl (List.mem_of_mem_filter hrow)⟩

theorem rebuild_keepsUsable (access : Access) (handle : Handle) (config : String) (limit : ℕ)
    (now : Datestamp) : Respects KeepsUsable (rebuild access handle config limit now) :=
  respects_rebuild lasting_keepsUsable (fun _ _ ↦ assign_keepsUsable _ _ _ _) access handle limit

theorem Ingester.ingest_keepsUsable (i : Ingester) (now : Datestamp) {submission : Submission}
    (h : ∀ payload ∈ submission.payload, payload.Storable) :
    Respects KeepsUsable (i.ingest now submission) := by
  have hL := lasting_keepsUsable
  refine respects_submission hL (fun _ _ _ _ ↦ assign_keepsUsable _ _ _ _)
    (fun localId payload hpayload ↦ enroll_keepsUsable _ (h payload hpayload)) fun localId ↦ ?_
  have hdelete : Respects KeepsUsable (update fun t ↦ t.deleteRecord (i.key localId) now) :=
    deleteRecords_keepsUsable _ now fun t ↦ rfl
  exact .bind hL hdelete.achieves fun _ ↦ (Respects.pure hL _).achieves

/-- **A batch keeps worlds usable**, whatever is in its text. -/
theorem ingestBatch_keepsUsable (access : Access) (tenant : TenantId) (request : IngestRequest)
    (settings : IngestSettings) (schedule : Schedule) (now : Datestamp) (input : List Char) :
    Respects KeepsUsable (ingestBatch access tenant request settings schedule now input) := by
  intro s
  have hcreated := Ingester.respects_create lasting_keepsUsable access tenant request settings s
  rcases hcreate : (Ingester.create access tenant request settings).go s with ⟨f | i, s₀⟩
  · rw [hcreate] at hcreated
    obtain ⟨report, hgo, -⟩ := go_ingestBatch_error hcreate schedule now input
    rwa [hgo]
  · rw [hcreate] at hcreated
    obtain ⟨b, hgo, -⟩ := go_ingestBatch hcreate schedule now input
    rw [hgo]
    refine lasting_keepsUsable.trans hcreated (i.respects_of_mem now lasting_keepsUsable ?_ s₀)
    intro submission hmem
    have hsubmitted := (Batch.order_perm ..).mem_iff.mp hmem
    exact i.ingest_keepsUsable now fun payload ↦ Submission.storable_payload hsubmitted

/-! ## What can be done with them -/

namespace World.Usable

variable (h : s.Usable) (hcache : s.cache.Made)

include h hcache

/-- **Whatever the match keys are, an ingester can be set up**, if its request is good, and its
methods compute a set for every payload. -/
theorem exists_create (access : Access) (tenant : TenantId) {request : IngestRequest}
    (settings : IngestSettings) {path : Option Extractor}
    (hpath : Ingester.extractor? request.localIdPath = .ok path) : ∃ i s',
      (Ingester.create access tenant request settings).go s = (.ok i, s') ∧
      ∀ p ∈ i.keys, ∀ payload, ∃ values, p.2.matchValues payload = .ok values := by
  obtain ⟨c, -, hgo⟩ := Ingester.go_create hcache access tenant request settings
  obtain ⟨all, hall, hmethods⟩ := exists_listMatchKeys h.valid
  obtain ⟨keys, hkeys⟩ : ∃ keys,
      (all.filter MatchKey.isAutomatic).mapM Ingester.withMethod = .ok keys := by
    refine exists_mapM_ok_iff.mpr fun k hk ↦ ?_
    obtain ⟨m, hm⟩ := hmethods k (List.mem_of_mem_filter hk)
    exact ⟨(k, m), by rw [Ingester.withMethod, hm]; rfl⟩
  rw [Ingester.design, hpath, hall] at hgo
  simp only [bind, Except.bind, hkeys] at hgo
  refine ⟨_, _, hgo, fun p hp payload ↦ ?_⟩
  obtain ⟨k, -, hk⟩ := exists_row_of_mapM hkeys hp
  rw [Ingester.withMethod] at hk
  rcases hmethod : k.createMethod with f | m
  · rw [hmethod] at hk
    cases hk
  · rw [hmethod] at hk
    obtain rfl := Except.ok.inj hk
    exact Method.exists_matchValues hmethod payload

/-- A batch is summed up unless its request is not good or its text breaks off. -/
theorem exists_report (access : Access) (tenant : TenantId) (request : IngestRequest)
    (settings : IngestSettings) (schedule : Schedule) (now : Datestamp) (input : List Char) :
    ∃ report s',
      (ingestBatch access tenant request settings schedule now input).go s = (.ok report, s') ∧
      (report.result.isOk = true ↔ (Ingester.extractor? request.localIdPath).isOk = true ∧
        (Json.readStream input).isComplete = true) := by
  rcases hpath : Ingester.extractor? request.localIdPath with f | path
  · have hcreate : (Ingester.create access tenant request settings).go s = (.error f, s) := by
      rw [Ingester.create, go_bind, go_ofExcept, hpath]
    obtain ⟨report, hgo, hresult⟩ := go_ingestBatch_error hcreate schedule now input
    refine ⟨report, s, hgo, ?_⟩
    simp [hresult, Except.isOk, Except.toBool]
  · obtain ⟨i, s₀, hcreate, -⟩ := h.exists_create hcache access tenant settings hpath
    obtain ⟨b, hgo, -⟩ := go_ingestBatch hcreate schedule now input
    refine ⟨_, _, hgo, ?_⟩
    rcases (Json.readStream input).isComplete with - | -
    · simp [Batch.report, Except.isOk, Except.toBool]
    · simp [Batch.report, Except.isOk, Except.toBool]

/-- **A match key that is there can be computed anew**, and no record fails. -/
theorem go_rebuild (hthere : s.tables.hasMatchKey config = true) {tenant : TenantId}
    {fetchSize limit : ℕ} {now : Datestamp}
    (hids : ((rebuild .free (.writing tenant fetchSize) config limit now).go s).2.ids.next
      < idLimit) : ∃ s',
      (rebuild .free (.writing tenant fetchSize) config limit now).go s
        = (.ok (some ⟨s.tables.records.length, 0⟩), s') ∧
      s'.tables.records = s.tables.records := by
  obtain ⟨k, m, hkey, hmethod⟩ := exists_matchKey? h.valid hthere
  choose f hf using Method.exists_matchValues hmethod
  obtain ⟨read, hread⟩ := h.orderly.form.exists_reading
  obtain ⟨-, s', -, hgo, -, hwalked⟩ := Clustering.go_rebuild h.orderly hkey
    (Handle.pageSize_writing_pos tenant fetchSize) hids hcache hmethod hf hread h.readable
  exact ⟨s', hgo, hwalked.records⟩

/-- **When it is cleared first, it is computed anew completely**: the stored records are partitioned
into the connected components of their values. -/
theorem go_cleanRebuild (hthere : s.tables.hasMatchKey config = true) {tenant : TenantId}
    {fetchSize limit : ℕ} {now : Datestamp}
    (hids : (cleanRebuild (.writing tenant fetchSize) config limit now s).2.ids.next < idLimit) :
    ∃ s' k m, s.tables.matchKey? config = .ok (some k) ∧ k.createMethod = .ok m ∧
      cleanRebuild (.writing tenant fetchSize) config limit now s
        = (.ok (some ⟨s.tables.records.length, 0⟩), s') ∧
      s'.tables.records = s.tables.records ∧
      Components config (Bears s.tables m limit) s'.tables := by
  obtain ⟨k, m, hkey, hmethod⟩ := exists_matchKey? h.valid hthere
  have hgrows : Grows ((clearing config).perform s) _ :=
    rebuild_grows .free (.writing tenant fetchSize) config limit now _
  obtain ⟨-, hkept⟩ := clear_keepsUsable config s
  have hcleared : ((clearing config).perform s).Usable :=
    hkept ((show Grows s _ from Nat.le_refl _).trans (hgrows.trans hids.le)) h
  have hrebuilt := rebuilt_of_orderly h.orderly.form hcleared.orderly hcache hkey hmethod hids
  obtain ⟨hanswer, hrecords, hcomponents⟩ := hrebuilt.readable h.readable
  exact ⟨_, k, m, hkey, hmethod, Prod.ext hanswer rfl, hrecords, hcomponents⟩

end World.Usable

end RecordLinkage
