import RecordLinkage.Proofs.Ingest.Convergence
import RecordLinkage.Proofs.Ingest.Setup

/-!
# Submissions are all or nothing

What a submission answers says exactly what has happened to the tables. One that fails, or is
ignored, has changed nothing, at whatever point and after how many attempts it has failed. One that
has stored a record has stored the payload under its key and has put the record into one cluster
under every match key of the ingester, next to its values.

The match keys of an ingester are those that it was set up with, some time before. What matters is
that each of them is there once, since a record that is assigned twice under one match key ends up
with the values of the second time.
-/

namespace RecordLinkage

open Clustering Work Tables

variable {s s' : World} {now : Datestamp} {t t' : Tables} {key : RecordKey} {payload : Json}
  {config : String} {r : RecordId} {values : List String}

/-! ## Deleting what is not there -/

namespace Tables

/-- Deleting no record changes nothing. -/
theorem deleteRecords_eq_self {fits : RecordRow → Bool} (h : ∀ r ∈ t.records, fits r = false)
    (now : Datestamp) : (t.deleteRecords fits now).2 = t := by
  have hany : ∀ id : RecordId, (t.records.any fun r ↦ r.id = .intact id && fits r) = false := by
    intro id
    rw [List.any_eq_false]
    intro r hr
    rw [h r hr, Bool.and_false]
    exact Bool.false_ne_true
  have hholds : t.holdsRecord fits = fun _ ↦ false := by
    funext x
    simp only [holdsRecord, hany, Bool.and_false, List.any_eq_false]
    exact fun _ _ ↦ Bool.false_ne_true
  have hrecords : t.records.filter (fun r ↦ !fits r) = t.records :=
    List.filter_eq_self.mpr fun r hr ↦ by rw [h r hr, Bool.not_false]
  have hmembers : t.members.filter (fun m ↦
      !t.records.any fun r ↦ r.id = .intact m.record && fits r) = t.members :=
    List.filter_eq_self.mpr fun m _ ↦ by rw [hany, Bool.not_false]
  rw [deleteRecords, hholds, advanceWhere_none, removeRecords, hrecords, hmembers]

theorem deleteRecord_eq_self (h : (t.recordOf? key).isSome = false) (now : Datestamp) :
    (t.deleteRecord key now).2 = t := by
  have hnone : t.recordOf? key = none := Option.isNone_iff_eq_none.mp (by simpa using h)
  refine deleteRecords_eq_self (fun r hr ↦ decide_eq_false ?_) now
  exact recordOf?_eq_none_iff.mp hnone r hr

/-! ## Where a record is put -/

/-- A record has one membership under a match key, in the cluster that owns the values. Without
values it is alone, in a cluster that is new and owns nothing. -/
def Settles (config : String) (r : RecordId) (values : List String) (t t' : Tables) : Prop :=
  ∃ x, t'.members.filter (fun m ↦ m.record = r && m.config = config)
      = [⟨r, config, .intact x⟩] ∧
    (∀ v ∈ values, t'.Owns config x v) ∧
    (values = [] → (∀ m ∈ t.marks, m.cluster ≠ x) ∧ (∀ v, ¬t'.Owns config x v) ∧
      ∀ q, t'.Holds config x q → q = r)

end Tables

namespace Ingester

variable {i : Ingester} {submission : Submission} {keys : List (MatchKey × Method)}
  {k : MatchKey × Method} {limit : ℕ}

/-- What is left of storing a payload under a key: the record has its old identifier, if it had one,
and is settled under every match key, with the values that the method computes, cut to length. -/
structure Filed (i : Ingester) (key : RecordKey) (payload : Json) (r : RecordId)
    (t t' : Tables) : Prop where
  stored : t'.recordOf? key = some ⟨.intact r, key, payload.text⟩
  kept : ∀ row, t.recordOf? key = some row → row.id = .intact r
  settled : ∀ k ∈ i.keys, ∃ values, k.2.matchValues payload = .ok values ∧
    Settles k.1.id r (truncate i.limit values) t t'

/-- The record of a submission is filed, and the outcome says whether it was there before. -/
def FiledAs (i : Ingester) (submission : Submission) (outcome : Outcome) (t t' : Tables) : Prop :=
  ∃ localId payload r, i.localId submission = .ok localId ∧ submission.payload = some payload ∧
    (outcome = .inserted ↔ t.recordOf? (i.key localId) = none) ∧
      i.Filed (i.key localId) payload r t t'

/-- **What the answer to a submission says about the world before and after.** What it says of a
record that is stored depends on new identifiers being new. -/
def Effect (i : Ingester) (submission : Submission) (s s' : World) :
    Except Fault Outcome → Prop
  | .error _ | .ok .ignored => s'.tables = s.tables
  | .ok .deleted => ∃ localId, i.localId submission = .ok localId ∧
    (s.tables.recordOf? (i.key localId)).isSome = true ∧
      s'.tables.recordOf? (i.key localId) = none
  | .ok outcome => s'.ids.next < idLimit → i.FiledAs submission outcome s.tables s'.tables

/-! ## The values of one match key -/

theorem setsUnder_eq_nil (h : config ∉ keys.map fun k ↦ k.1.id) :
    setsUnder limit config payload keys = [] := by
  induction keys with
  | nil => rfl
  | cons k rest ih =>
    rw [List.map_cons, List.mem_cons, not_or] at h
    rw [setsUnder, ih h.2, if_neg (Ne.symm h.1), List.append_nil]

/-- Under a match key that is there once, the values of a payload are one set. -/
theorem setsUnder_eq_singleton (hnodup : (keys.map fun k ↦ k.1.id).Nodup) (hk : k ∈ keys)
    (hvalues : k.2.matchValues payload = .ok values) :
    setsUnder limit k.1.id payload keys = [truncate limit values] := by
  induction keys with
  | nil => exact absurd hk List.not_mem_nil
  | cons first rest ih =>
    obtain ⟨hfirst, hnodup⟩ := List.nodup_cons.mp hnodup
    rw [setsUnder]
    rcases List.mem_cons.mp hk with rfl | hk
    · rw [setsUnder_eq_nil hfirst, if_pos rfl, hvalues]
      rfl
    · have hne : first.1.id ≠ k.1.id := fun heq ↦ hfirst (List.mem_map.mpr ⟨k, hk, heq.symm⟩)
      rw [ih hnodup hk, if_neg hne, List.append_nil]

/-! ## Storing a record -/

/-- Under every match key of the ingester a record that is stored is settled. -/
theorem settles_of_course {H : List (RecordId × List String)} (ho : s.Orderly)
    (hs : s.tables.Sound) (hform : s'.tables.Wellformed) (hcourse : Course config s H s')
    (hr : s'.tables.Stores r) (hlatest : H.lookup r = some values) :
    Settles config r values s.tables s'.tables := by
  have htracks := hcourse.tracks hs.form (ho.numbered hs config)
  obtain ⟨x, hx⟩ := htracks.present hr (Or.inl (by rw [hlatest]; rfl))
  refine ⟨x, hform.filter_members hx, htracks.latest hx hlatest, ?_⟩
  rintro rfl
  obtain ⟨hnew, hno, halone⟩ := htracks.alone hx hlatest
  exact ⟨fun m hm heq ↦ absurd (heq ▸ ho.mark_lt m hm) (Nat.not_lt.mpr hnew), hno, halone⟩

theorem filed_of_store {localId : String} {outcome : Outcome} (hnodup : i.matchKeys.Nodup)
    (ho : s.Orderly) (hs : s.tables.Sound) (hids : s'.ids.next < idLimit)
    (hgo : (i.store now localId payload).go s = (.ok outcome, s')) :
    ∃ r, i.Filed (i.key localId) payload r s.tables s'.tables := by
  have hdealt := Dealt.store ho hids hgo
  have hstore := List.mem_singleton_self (Deed.store (i.key localId) payload)
  obtain ⟨r, hrow, hkept, -⟩ := hdealt.stored _ _ hstore
  have hr : s'.tables.Stores r := ⟨_, List.mem_of_find?_eq_some hrow, rfl⟩
  refine ⟨r, hrow, hkept, fun k hk ↦ ?_⟩
  obtain ⟨_, _, r', s₁, henroll, -, hassign, -⟩ := store_ok hgo
  obtain ⟨t, -, rfl, hst⟩ := enroll_ok henroll
  obtain ⟨-, values, hvalues⟩ := computes_of_forM (ho.form.storeRecord hst) hassign k hk
  obtain ⟨H, hcourse, hrecounts⟩ := hdealt.course k.1.id
  have hlatest : H.lookup r = some (truncate i.limit values) := by
    rw [hrecounts.lookup hstore hrow rfl, sets, setsUnder_eq_singleton hnodup hk hvalues]
    rfl
  exact ⟨values, hvalues, settles_of_course ho hs hdealt.orderly.form hcourse hr hlatest⟩

/-! ## Whole submissions -/

/-- A submission that names a record to delete. -/
private theorem effect_of_delete {localId : String} {outcome : Outcome}
    (hlocal : i.localId submission = .ok localId)
    (hgo : (i.delete now localId).go s = (.ok outcome, s')) :
    i.Effect submission s s' (.ok outcome) := by
  rw [delete, go_bind, go_update] at hgo
  obtain ⟨houtcome, rfl⟩ := Prod.mk.inj hgo
  obtain rfl := Except.ok.inj houtcome
  rw [deleteRecord_fst]
  rcases hfound : (s.tables.recordOf? (i.key localId)).isSome with - | -
  · exact deleteRecord_eq_self hfound now
  · exact ⟨localId, hlocal, hfound, (recordOf?_deleteRecord s.tables _ now).1⟩

private theorem effect_of_store {localId : String} {outcome : Outcome}
    (hnodup : i.matchKeys.Nodup) (ho : s'.ids.next < idLimit → s.Orderly) (hs : s.tables.Sound)
    (hlocal : i.localId submission = .ok localId) (hpayload : submission.payload = some payload)
    (hgo : (i.store now localId payload).go s = (.ok outcome, s')) :
    i.Effect submission s s' (.ok outcome) := by
  have hgrows : Grows s s' := (i.store_grows now localId payload).achieves hgo
  have hfiled : s'.ids.next < idLimit → i.FiledAs submission outcome s.tables s'.tables := by
    intro hids
    obtain ⟨r, hr⟩ := filed_of_store hnodup (ho hids) hs hids hgo
    refine ⟨localId, payload, r, hlocal, hpayload, ?_, hr⟩
    rw [outcome_of_store (ho hids) (hgrows.trans_lt hids) hgo]
    rcases s.tables.recordOf? (i.key localId) with - | row
    · exact iff_of_true rfl rfl
    · exact iff_of_false nofun nofun
  -- Storing answers that the record is new or that it is not.
  obtain ⟨candidate, _, r, _, -, -, -, houtcome⟩ := store_ok hgo
  split_ifs at houtcome
  · subst houtcome
    exact hfiled
  · subst houtcome
    exact hfiled

theorem ingest_effect (hnodup : i.matchKeys.Nodup) (hs : s.tables.Sound)
    (ho : s.ids.next ≤ idLimit → s.Orderly) (now : Datestamp) (submission : Submission) :
    i.Effect submission s ((i.ingest now submission).go s).2
      ((i.ingest now submission).go s).1 := by
  rcases i.go_ingest now submission s with
    ⟨f, s', hgo, htables, -⟩ | ⟨localId, s₁, outcome, s', hlocal, htables, hgrows, hattempt, hgo⟩
  · rw [hgo]
    exact htables
  · -- Attempts before the one that succeeded have left the tables as they were.
    have heffect : i.Effect submission s₁ s' (.ok outcome) := by
      obtain ⟨-, hact⟩ := attempt_ok hattempt
      rw [act] at hact
      split_ifs at hact
      · exact effect_of_delete hlocal hact
      · split at hact
        · next payload hpayload =>
          refine effect_of_store hnodup (fun hids ↦ ?_) (htables ▸ hs) hlocal hpayload hact
          have hgrows' : Grows s₁ s' := (i.store_grows now localId payload).achieves hact
          have hle : s₁.ids.next ≤ idLimit := hgrows'.trans hids.le
          exact (lasting_keepsOrder.idle htables hgrows).2 hle (ho (hgrows.trans hle))
        · cases (Prod.mk.inj hact).1
    rw [hgo]
    cases outcome <;> simpa only [Effect, FiledAs, htables] using heffect

end Ingester

/-- **Submissions are atomic.** An ingester is set up in some world that the engine leads to, and
carries out a submission in another one, whatever stands in the way of writing then. If it answers
that a record was inserted or updated, then the payload is stored under the key, the record was not
there before or keeps its identifier, and under every match key of the ingester it has one
membership, in the cluster that owns its values. If it answers that a record was deleted, then the
key was there and is not any more. Otherwise the tables are as before. -/
theorem ingest_atomic {s₀ s₁ : World} {access : Access} {tenant : TenantId}
    {request : IngestRequest} {settings : IngestSettings} {i : Ingester} (h₀ : Reachable s₀)
    (hcreate : (Ingester.create access tenant request settings).go s₀ = (.ok i, s₁))
    (h : Reachable s) (access' : Access) (now : Datestamp) (submission : Submission) :
    { i with access := access' }.Effect submission s
      (({ i with access := access' }.ingest now submission).go s).2
      (({ i with access := access' }.ingest now submission).go s).1 := by
  have hnodup := Ingester.matchKeys_nodup h₀.sound.form hcreate
  exact Ingester.ingest_effect (i := { i with access := access' }) hnodup h.sound h.orderly now
    submission

namespace Sample

/-- An ingester that is set up while nothing is stored. -/
def early : Except Fault Ingester × World :=
  (Ingester.create .free tenant request settings).go (run blank (bridge.take 1))

/-- A new record with an old value. -/
def newcomer : Submission := .store "d" (.array [.string "x"])

end Sample

open Sample in
/-- A record is submitted to a library that has others, with one of their values. -/
theorem newcomer_is_filed : ∃ i s₁ s' r, early = (.ok i, s₁) ∧
    (i.ingest 9 newcomer).go (run blank bridge) = (.ok .inserted, s') ∧
    i.Filed (i.key "d") (.array [.string "x"]) r (run blank bridge).tables s'.tables := by
  have hreachable : Reachable (run blank (bridge.take 1)) := by
    refine ⟨blank, bridge.take 1, rfl, rfl, ?_⟩
    simp [bridge, Operation.IsEngine, Operation.reading?]
  have hanswer : early.1.toOption.any (fun i ↦
      decide (((i.ingest 9 newcomer).go (run blank bridge)).1 = .ok .inserted) &&
        decide (((i.ingest 9 newcomer).go (run blank bridge)).2.ids.next < idLimit)) = true := by
    decide +kernel
  rcases hearly : early with ⟨f | i, s₁⟩
  · rw [hearly] at hanswer
    cases hanswer
  · rw [hearly] at hanswer
    simp only [Except.toOption, Option.any_some, Bool.and_eq_true, decide_eq_true_eq] at hanswer
    obtain ⟨hok, hids⟩ := hanswer
    have heffect := ingest_atomic hreachable hearly reachable_bridge i.access 9 newcomer
    rw [show { i with access := i.access } = i from rfl, hok] at heffect
    obtain ⟨localId, payload, r, hlocal, hpayload, -, hfiled⟩ := heffect hids
    obtain rfl := Except.ok.inj (show Except.ok "d" = Except.ok localId from hlocal)
    obtain rfl := Option.some.inj hpayload
    exact ⟨i, s₁, _, r, rfl, Prod.ext hok rfl, hfiled⟩

end RecordLinkage
