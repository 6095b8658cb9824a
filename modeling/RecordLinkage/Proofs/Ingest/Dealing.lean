import RecordLinkage.Proofs.Ingest.Deed
import RecordLinkage.Proofs.Ingest.Sequence

/-!
# What a sequence of submissions amounts to

Submissions that name different records do not get in each other's way. What is known of the records
after a sequence of them, and what was assigned under which match key, can be read off the deeds
without regard to their order; only the identifiers that new records have got depend on it.

`Dealt` says this of the world before and after. It composes, as long as no key is dealt with twice.
-/

namespace RecordLinkage

open Clustering Work Tables

variable {i : Ingester} {s s' s'' : World} {now : Datestamp} {config : String} {a b : List Deed}
  {t : Tables} {H H' : List (RecordId × List String)}

/-- The history of a match key, as far as deeds determine it. -/
structure Recounts (i : Ingester) (config : String) (deeds : List Deed) (t : Tables)
    (H : List (RecordId × List String)) : Prop where
  /-- The sets that were assigned are those of the payloads that were stored. -/
  sets : ∀ S, (∃ e ∈ H, e.2 = S) ↔ ∃ key payload, .store key payload ∈ deeds ∧
    S ∈ i.sets config payload
  /-- Whatever was assigned is a record that was stored. -/
  listed : ∀ e ∈ H, ∃ key payload row, .store key payload ∈ deeds ∧
    t.recordOf? key = some row ∧ row.id = .intact e.1
  /-- A record that was stored was assigned with the sets of its payload. -/
  lookup : ∀ {key payload row r}, .store key payload ∈ deeds → t.recordOf? key = some row →
    row.id = .intact r → H.lookup r = (i.sets config payload).head?

/-- **What has happened after some deeds.** -/
structure Dealt (i : Ingester) (deeds : List Deed) (s s' : World) : Prop where
  orderly : s'.Orderly
  grows : Grows s s'
  matchKeys : s'.tables.matchKeys = s.tables.matchKeys
  untouched : ∀ key, (∀ d ∈ deeds, d.key ≠ key) →
    s'.tables.recordOf? key = s.tables.recordOf? key
  removed : ∀ key, .remove key ∈ deeds → s'.tables.recordOf? key = none
  /-- A record that is stored has its old identifier, or a new one if it was not there. -/
  stored : ∀ key payload, .store key payload ∈ deeds → ∃ r,
    s'.tables.recordOf? key = some ⟨.intact r, key, payload.text⟩ ∧
      (∀ row, s.tables.recordOf? key = some row → row.id = .intact r) ∧
      (s.tables.recordOf? key = none → s.ids.next ≤ r.toNat)
  course : ∀ config, ∃ H, Course config s H s' ∧ Recounts i config deeds s'.tables H

/-! ## One deed after the other -/

theorem Tables.Wellformed.key_unique (h : t.Wellformed) {key k : RecordKey} {row row' : RecordRow}
    (hrow : t.recordOf? key = some row) (hrow' : t.recordOf? k = some row')
    (hid : row.id = row'.id) : key = k := by
  have heq := h.record_ext (List.mem_of_find?_eq_some hrow) (List.mem_of_find?_eq_some hrow') hid
  rw [← key_of_recordOf? hrow, heq, key_of_recordOf? hrow']

/-- A record that no deed has stored was not assigned. -/
theorem lookup_eq_none_of_listed {key : RecordKey} {row : RecordRow} {r : RecordId}
    (hform : t.Wellformed) (hlisted : ∀ e ∈ H, ∃ key payload row, .store key payload ∈ a ∧
      t.recordOf? key = some row ∧ row.id = .intact e.1)
    (hrow : t.recordOf? key = some row) (hid : row.id = .intact r)
    (hno : ∀ payload, .store key payload ∉ a) : H.lookup r = none := by
  rw [List.lookup_eq_none_iff]
  intro e he
  refine bne_iff_ne.mpr fun heq ↦ ?_
  obtain ⟨key', payload', row', hd', hrow', hid'⟩ := hlisted e he
  obtain rfl := hform.key_unique hrow hrow' (hid.trans (heq ▸ hid'.symm))
  exact hno payload' hd'

/-- Histories follow one another when no key is dealt with twice. -/
theorem Recounts.trans (h : Recounts i config a s'.tables H)
    (h' : Recounts i config b s''.tables H') (hform : s''.tables.Wellformed)
    (hkept : ∀ key, (∀ d ∈ b, d.key ≠ key) → s''.tables.recordOf? key = s'.tables.recordOf? key)
    (hdisjoint : ∀ d ∈ a, ∀ e ∈ b, d.key ≠ e.key) :
    Recounts i config (a ++ b) s''.tables (H' ++ H) := by
  have hkeep : ∀ {key payload}, Deed.store key payload ∈ a →
      s''.tables.recordOf? key = s'.tables.recordOf? key :=
    fun hd ↦ hkept _ fun e he heq ↦ hdisjoint _ hd e he heq.symm
  have hlisted : ∀ e ∈ H, ∃ key payload row, .store key payload ∈ a ∧
      s''.tables.recordOf? key = some row ∧ row.id = .intact e.1 := by
    intro e he
    obtain ⟨key, payload, row, hd, hrow, hid⟩ := h.listed e he
    exact ⟨key, payload, row, hd, (hkeep hd).trans hrow, hid⟩
  refine ⟨fun S ↦ ?_, fun e he ↦ ?_, fun {key payload row r} hd hrow hid ↦ ?_⟩
  · simp only [List.mem_append, or_and_right, exists_or, h.sets, h'.sets]
    exact or_comm
  · rcases List.mem_append.mp he with he | he
    · obtain ⟨key, payload, row, hd, hrow⟩ := h'.listed e he
      exact ⟨key, payload, row, List.mem_append_right _ hd, hrow⟩
    · obtain ⟨key, payload, row, hd, hrow⟩ := hlisted e he
      exact ⟨key, payload, row, List.mem_append_left _ hd, hrow⟩
  · rw [List.lookup_append]
    rcases List.mem_append.mp hd with hd | hd
    · have hlater : H'.lookup r = none :=
        lookup_eq_none_of_listed hform h'.listed hrow hid fun p hd' ↦ hdisjoint _ hd _ hd' rfl
      rw [hlater, Option.none_or]
      exact h.lookup hd ((hkeep hd).symm.trans hrow) hid
    · have hearlier : H.lookup r = none :=
        lookup_eq_none_of_listed hform hlisted hrow hid fun p hd' ↦ hdisjoint _ hd' _ hd rfl
      rw [hearlier, Option.or_none]
      exact h'.lookup hd hrow hid

theorem Dealt.trans (h : Dealt i a s s') (h' : Dealt i b s' s'')
    (hdisjoint : ∀ d ∈ a, ∀ e ∈ b, d.key ≠ e.key) : Dealt i (a ++ b) s s'' where
  orderly := h'.orderly
  grows := h.grows.trans h'.grows
  matchKeys := h'.matchKeys.trans h.matchKeys
  untouched key hkey :=
    (h'.untouched key fun d hd ↦ hkey d (List.mem_append_right _ hd)).trans
      (h.untouched key fun d hd ↦ hkey d (List.mem_append_left _ hd))
  removed key hd := by
    rcases List.mem_append.mp hd with hd | hd
    · rw [h'.untouched key fun e he heq ↦ hdisjoint _ hd e he heq.symm]
      exact h.removed key hd
    · exact h'.removed key hd
  stored key payload hd := by
    rcases List.mem_append.mp hd with hd | hd
    · rw [h'.untouched key fun e he heq ↦ hdisjoint _ hd e he heq.symm]
      exact h.stored key payload hd
    · obtain ⟨r, hrow, hold, hnew⟩ := h'.stored key payload hd
      have hsame := h.untouched key fun d hd' ↦ hdisjoint d hd' _ hd
      rw [hsame] at hold hnew
      exact ⟨r, hrow, hold, fun hnone ↦ h.grows.trans (hnew hnone)⟩
  course config := by
    obtain ⟨H, hcourse, hH⟩ := h.course config
    obtain ⟨H', hcourse', hH'⟩ := h'.course config
    exact ⟨H' ++ H, hcourse.trans hcourse',
      hH.trans hH' h'.orderly.form h'.untouched hdisjoint⟩

/-! ## One deed -/

/-- Nothing has happened. -/
theorem Dealt.idle (ho : s.Orderly) (htables : s'.tables = s.tables) (hgrows : Grows s s')
    (hids : s'.ids.next ≤ idLimit) : Dealt i [] s s' where
  orderly := (lasting_keepsOrder.idle htables hgrows).2 hids ho
  grows := hgrows
  matchKeys := by rw [htables]
  untouched _ _ := by rw [htables]
  removed _ hd := absurd hd List.not_mem_nil
  stored _ _ hd := absurd hd List.not_mem_nil
  course config := by
    refine ⟨[], .spare .start (((lasting_apart config).idle htables hgrows).2 hids ho).2, ?_⟩
    exact ⟨by simp, by simp, fun hd ↦ absurd hd List.not_mem_nil⟩

theorem Dealt.remove (ho : s.Orderly) (key : RecordKey) (now : Datestamp) :
    Dealt i [.remove key] s { s with tables := (s.tables.deleteRecord key now).2 } where
  orderly := ho.deleteRecords _ now
  grows := Nat.le_refl _
  matchKeys := rfl
  untouched k hk :=
    (recordOf?_deleteRecord s.tables key now).2 k (hk _ (List.mem_singleton_self _)).symm
  removed k hk := by
    obtain rfl := Deed.remove.inj (List.mem_singleton.mp hk)
    exact (recordOf?_deleteRecord s.tables k now).1
  stored k payload hd := nomatch List.mem_singleton.mp hd
  course config := by
    refine ⟨[], .spare .start (deleteRecords_spares ho _ now), ?_⟩
    exact ⟨by simp, by simp, fun hd ↦ nomatch List.mem_singleton.mp hd⟩

private theorem lookup_map_pair (r : RecordId) (sets : List (List String)) :
    (sets.map (r, ·)).lookup r = sets.head? := by
  rcases sets with - | ⟨S, rest⟩
  · rfl
  · exact List.lookup_cons_self

/-- The history of one record. -/
theorem Recounts.single {key : RecordKey} {payload : Json} {r : RecordId} {text : String}
    (hrow : t.recordOf? key = some ⟨.intact r, key, text⟩) :
    Recounts i config [.store key payload] t ((i.sets config payload).map (r, ·)) := by
  refine ⟨fun S ↦ ?_, fun e he ↦ ?_, fun {key' payload' row q} hd hrow' hq ↦ ?_⟩
  · simp only [List.mem_map, List.mem_singleton]
    constructor
    · rintro ⟨_, ⟨S, hS, rfl⟩, rfl⟩
      exact ⟨key, payload, rfl, hS⟩
    · rintro ⟨key', payload', hd, hS⟩
      obtain ⟨rfl, rfl⟩ := Deed.store.inj hd
      exact ⟨_, ⟨S, hS, rfl⟩, rfl⟩
  · obtain ⟨S, -, rfl⟩ := List.mem_map.mp he
    exact ⟨key, payload, _, List.mem_singleton_self _, hrow, rfl⟩
  · obtain ⟨rfl, rfl⟩ := Deed.store.inj (List.mem_singleton.mp hd)
    obtain rfl := Option.some.inj (hrow.symm.trans hrow')
    obtain rfl := Cell.intact.inj hq
    exact lookup_map_pair r _

/-- What storing under a key does to the records. A record that was there keeps its identifier. -/
theorem Ingester.recordOf?_enroll {key : RecordKey} {payload : Json} {candidate r : RecordId}
    {cell : Cell RecordId} (ho : s'.Orderly) (hids : s.ids.next < idLimit)
    (hread : cell.read = .ok r)
    (hgo : (enroll key payload).go s = (.ok (candidate, cell), s')) :
    s'.tables.recordOf? key = some ⟨.intact r, key, payload.text⟩ ∧
      (∀ k, k ≠ key → s'.tables.recordOf? k = s.tables.recordOf? k) ∧
      (∀ row, s.tables.recordOf? key = some row → row.id = .intact r) ∧
      (s.tables.recordOf? key = none → s.ids.next ≤ r.toNat) := by
  obtain ⟨t, -, rfl, hst⟩ := enroll_ok hgo
  obtain ⟨hown, hothers⟩ := recordOf?_storeRecord hst
  obtain ⟨r', rfl⟩ := ho.form.record_intact _ (List.mem_of_find?_eq_some hown)
  obtain rfl := Except.ok.inj hread
  refine ⟨hown, hothers, fun row hrow ↦ ?_, fun hnone ↦ ?_⟩
  · rcases storeRecord_ok_iff.mp hst with ⟨row', hrow', hcell, -⟩ | ⟨hno, -⟩
    · rw [Option.some.inj (hrow.symm.trans hrow')]
      exact hcell.symm
    · exact nomatch hno.symm.trans hrow
  · rcases storeRecord_ok_iff.mp hst with ⟨row', hrow', -⟩ | ⟨-, -, hcell, -⟩
    · exact nomatch hnone.symm.trans hrow'
    · rw [Cell.intact.inj hcell]
      exact (Uuid.toNat_ofNat hids).ge

/-- **What storing and assigning a record does**: it is there under its key, and gets the sets of
its payload under every match key. -/
theorem Ingester.stored_of_store {localId : String} {payload : Json} {outcome : Outcome}
    (ho : s.Orderly) (hids : s'.ids.next < idLimit)
    (hgo : (i.store now localId payload).go s = (.ok outcome, s')) :
    s'.Orderly ∧ Grows s s' ∧ s'.tables.matchKeys = s.tables.matchKeys ∧
      (∀ k, k ≠ i.key localId → s'.tables.recordOf? k = s.tables.recordOf? k) ∧
      ∃ r, s'.tables.recordOf? (i.key localId)
          = some ⟨.intact r, i.key localId, payload.text⟩ ∧
        (∀ row, s.tables.recordOf? (i.key localId) = some row → row.id = .intact r) ∧
        (s.tables.recordOf? (i.key localId) = none → s.ids.next ≤ r.toNat) ∧
        ∀ config, Course config s ((i.sets config payload).map (r, ·)) s' := by
  obtain ⟨candidate, cell, r, s₁, henroll, hread, hassign, -⟩ := Ingester.store_ok hgo
  have hgrows : Grows s s₁ := (Ingester.enroll_grows _ _).achieves henroll
  have hgrows₁ : Grows s₁ s' := (i.forM_grows now r payload i.keys).achieves hassign
  have hids₁ : s₁.ids.next < idLimit := hgrows₁.trans_lt hids
  have ho₁ := ((Ingester.enroll_keepsOrder _ _) henroll).2 hids₁.le ho
  obtain ⟨hrow, hothers, hold, hnew⟩ :=
    Ingester.recordOf?_enroll ho₁ (hgrows.trans_lt hids₁) hread henroll
  obtain ⟨ho', hcourse⟩ := Ingester.course_forM ho₁ hids hassign
  -- From here on the record is assigned, and no row is written any more.
  obtain ⟨-, hrecords, hkeys⟩ := i.assignAll_keepsRecords now r payload hassign ho₁.form
  have hrecordOf : ∀ key, s'.tables.recordOf? key = s₁.tables.recordOf? key := fun key ↦ by
    rw [recordOf?, hrecords, recordOf?]
  have hkeys₁ : s₁.tables.matchKeys = s.tables.matchKeys := by
    obtain ⟨t, -, rfl, hst⟩ := Ingester.enroll_ok henroll
    exact (Ingester.storeRecord_frame hst).2.2.2
  refine ⟨ho', hgrows.trans hgrows₁, hkeys.trans hkeys₁,
    fun k hk ↦ (hrecordOf k).trans (hothers k hk), r, (hrecordOf _).trans hrow, hold, hnew,
    fun config ↦ ?_⟩
  have hwhole := Course.trans (.spare .start (enroll_spares henroll hids₁.le ho)) (hcourse config)
  rw [List.append_nil] at hwhole
  exact hwhole

/-- A record that is stored gets the sets of its payload under every match key. -/
theorem Dealt.store {localId : String} {payload : Json} {outcome : Outcome} (ho : s.Orderly)
    (hids : s'.ids.next < idLimit) (hgo : (i.store now localId payload).go s = (.ok outcome, s')) :
    Dealt i [.store (i.key localId) payload] s s' := by
  obtain ⟨ho', hgrows, hkeys, hothers, r, hrow, hold, hnew, hcourse⟩ :=
    Ingester.stored_of_store ho hids hgo
  refine ⟨ho', hgrows, hkeys, fun key hkey ↦ ?_, fun key hd ↦ ?_, fun key payload' hd ↦ ?_,
    fun config ↦ ⟨_, hcourse config, .single hrow⟩⟩
  · exact hothers key (hkey _ (List.mem_singleton_self _)).symm
  · cases List.mem_singleton.mp hd
  · obtain ⟨rfl, rfl⟩ := Deed.store.inj (List.mem_singleton.mp hd)
    exact ⟨r, hrow, hold, hnew⟩

/-! ## One submission -/

namespace Ingester

variable {submission : Submission}

/-- What becomes of a submission, where failing counts as being ignored. -/
def verdict (i : Ingester) (t : Tables) (submission : Submission) : Outcome :=
  match i.deed? t submission with
  | some (.store key _) => if (t.recordOf? key).isSome then .updated else .inserted
  | some (.remove key) => if (t.recordOf? key).isSome then .deleted else .ignored
  | none => .ignored

theorem outcome_of_store {localId : String} {payload : Json} {outcome : Outcome} (ho : s.Orderly)
    (hids : s.ids.next < idLimit) (hgo : (i.store now localId payload).go s = (.ok outcome, s')) :
    outcome = if (s.tables.recordOf? (i.key localId)).isSome then .updated else .inserted := by
  obtain ⟨candidate, cell, r, s₁, henroll, hread, -, rfl⟩ := store_ok hgo
  obtain ⟨t, rfl, -, hst⟩ := enroll_ok henroll
  rcases storeRecord_ok_iff.mp hst with ⟨row, hrow, hcell, -⟩ | ⟨hnone, -, hcell, -⟩
  · obtain ⟨q, hq⟩ := ho.form.record_intact row (List.mem_of_find?_eq_some hrow)
    rw [show cell = .intact q from hcell.trans hq] at hread
    obtain rfl := Except.ok.inj hread
    -- The record was there, so it does not have the identifier that was kept ready.
    have hne : q ≠ ⟨Uuid.ofNat s.ids.next⟩ := by
      rintro rfl
      exact ho.fresh_record hids ⟨row, List.mem_of_find?_eq_some hrow, hq⟩
    rw [if_neg hne, hrow]
    rfl
  · rw [show cell = .intact ⟨Uuid.ofNat s.ids.next⟩ from hcell] at hread
    rw [← Except.ok.inj hread, if_pos rfl, hnone]
    rfl

theorem deleteRecord_fst (t : Tables) (key : RecordKey) (now : Datestamp) :
    (t.deleteRecord key now).1 = (t.recordOf? key).isSome := by
  change decide (0 < t.records.countP fun r ↦ decide (r.key = key)) = _
  rw [Bool.eq_iff_iff, decide_eq_true_eq, List.countP_pos_iff, recordOf?, List.find?_isSome]

/-- **A submission does its deed**, and counts as it should. -/
theorem ingest_dealt (ho : s.Orderly)
    (hids : ((i.ingest now submission).go s).2.ids.next < idLimit) :
    tallyOf ((i.ingest now submission).go s).1 = (i.verdict s.tables submission).tally ∧
      Dealt i (i.deed? s.tables submission).toList s ((i.ingest now submission).go s).2 := by
  rcases hdeed : i.deed? s.tables submission with - | ⟨key, payload⟩ | key
  · obtain ⟨f, s', hgo, htables, hgrows⟩ := ingest_of_deed?_none ho.form hdeed
    rw [hgo] at hids ⊢
    rw [verdict, hdeed]
    exact ⟨rfl, .idle ho htables hgrows hids.le⟩
  · obtain ⟨localId, outcome, s', rfl, hgo, hstore⟩ := ingest_of_deed?_store ho hids hdeed
    rw [hgo] at hids ⊢
    have hgrows : Grows s s' := (i.store_grows now localId payload).achieves hstore
    rw [verdict, hdeed, outcome_of_store ho (hgrows.trans_lt hids) hstore]
    exact ⟨rfl, .store ho hids hstore⟩
  · rw [ingest_of_deed?_remove hdeed, deleteRecord_fst, verdict, hdeed]
    exact ⟨rfl, .remove ho key now⟩

/-! ## Whole sequences -/

/-- Two submissions do not name the same record. -/
def Unlike (i : Ingester) (a b : Submission) : Prop :=
  ∀ localId, i.localId a = .ok localId → i.localId b ≠ .ok localId

theorem Unlike.symm {a b : Submission} (h : i.Unlike a b) : i.Unlike b a :=
  fun localId hb ha ↦ h localId ha hb

/-- Submissions that give different identifiers. -/
theorem unlike_of_given {a b : Submission} (ha : a.localId.isSome) (hb : b.localId.isSome)
    (hne : a.localId ≠ b.localId) : i.Unlike a b := by
  obtain ⟨x, hx⟩ := Option.isSome_iff_exists.mp ha
  obtain ⟨y, hy⟩ := Option.isSome_iff_exists.mp hb
  intro localId hlocal hlocal'
  simp only [Ingester.localId, hx, hy, Except.ok.injEq] at hlocal hlocal'
  exact hne (by rw [hx, hy, hlocal, hlocal'])

/-- A deed is under the key of the record that is named. -/
theorem key_of_deed? {t : Tables} {a : Submission} {d : Deed} (hd : i.deed? t a = some d) :
    ∃ localId, i.localId a = .ok localId ∧ d.key = i.key localId := by
  obtain ⟨-, localId, hlocal, ⟨-, rfl⟩ | ⟨-, _, -, -, rfl⟩⟩ := deed?_cases hd
  · exact ⟨localId, hlocal, rfl⟩
  · exact ⟨localId, hlocal, rfl⟩

theorem deed?_key_ne {t : Tables} {a b : Submission} (h : i.Unlike a b) {d e : Deed}
    (hd : i.deed? t a = some d) (he : i.deed? t b = some e) : d.key ≠ e.key := by
  obtain ⟨localId, hlocal, hdkey⟩ := key_of_deed? hd
  obtain ⟨localId', hlocal', hekey⟩ := key_of_deed? he
  intro heq
  have hsame : i.key localId = i.key localId' := hdkey.symm.trans (heq.trans hekey)
  rw [← (RecordKey.mk.inj hsame).1] at hlocal'
  exact h localId hlocal hlocal'

theorem carry_grows (i : Ingester) (now : Datestamp) (submissions : List Submission) (s : World) :
    Grows s (i.carry now submissions s).2 :=
  i.carry_respects now Lasting.grows (fun a ↦ i.ingest_grows now a) submissions s

/-- What becomes of a submission depends on its own record only. -/
theorem verdict_congr {t t' : Tables} (hkeys : t'.matchKeys = t.matchKeys)
    (hrecord : ∀ d ∈ i.deed? t submission, t'.recordOf? d.key = t.recordOf? d.key) :
    i.verdict t' submission = i.verdict t submission := by
  rw [verdict, verdict, deed?_congr hkeys]
  rcases hdeed : i.deed? t submission with - | ⟨key, payload⟩ | key
  · rfl
  · have hrow : t'.recordOf? key = t.recordOf? key := hrecord _ hdeed
    simp only [hrow]
  · have hrow : t'.recordOf? key = t.recordOf? key := hrecord _ hdeed
    simp only [hrow]

/-- **Submissions that name different records do their deeds**, each as if it were alone. -/
theorem carry_dealt {submissions : List Submission} (hunlike : submissions.Pairwise i.Unlike)
    (ho : s.Orderly) (hids : (i.carry now submissions s).2.ids.next < idLimit) :
    i.tally now submissions s = (submissions.map fun a ↦ (i.verdict s.tables a).tally).sum ∧
      Dealt i (i.deeds s.tables submissions) s (i.carry now submissions s).2 := by
  induction submissions generalizing s with
  | nil => exact ⟨rfl, .idle ho rfl (Nat.le_refl _) hids.le⟩
  | cons submission rest ih =>
    obtain ⟨hfirst, hrest⟩ := List.pairwise_cons.mp hunlike
    rw [carry_cons] at hids
    obtain ⟨htally, hdealt⟩ := ingest_dealt ho ((i.carry_grows now rest _).trans_lt hids)
    obtain ⟨htallies, hdealts⟩ := ih hrest hdealt.orderly hids
    rw [deeds_congr hdealt.matchKeys] at hdealts
    have hdisjoint : ∀ d ∈ (i.deed? s.tables submission).toList, ∀ e ∈ i.deeds s.tables rest,
        d.key ≠ e.key := by
      intro d hd e he
      obtain ⟨a, ha, he⟩ := List.mem_filterMap.mp he
      exact deed?_key_ne (hfirst a ha) (Option.mem_toList.mp hd) he
    -- What the others amount to does not depend on the first submission, as it has another key.
    have hverdicts : ∀ a ∈ rest, i.verdict ((i.ingest now submission).go s).2.tables a
        = i.verdict s.tables a := by
      refine fun a ha ↦ verdict_congr hdealt.matchKeys fun e he ↦ hdealt.untouched _ fun d hd ↦ ?_
      exact deed?_key_ne (hfirst a ha) (Option.mem_toList.mp hd) he
    constructor
    · rw [tally_cons, htally, htallies, List.map_cons, List.sum_cons]
      refine congrArg (_ + ·) (congrArg List.sum (List.map_congr_left fun a ha ↦ ?_))
      rw [hverdicts a ha]
    · rw [deeds_cons, carry_cons]
      exact hdealt.trans hdealts hdisjoint

end Ingester

end RecordLinkage
