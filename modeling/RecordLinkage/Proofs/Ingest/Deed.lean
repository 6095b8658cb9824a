import RecordLinkage.Proofs.History.Apart

/-!
# What a submission amounts to

A submission either fails, or it stores a payload under a key, or it removes the record of a key.
Which of these it is does not depend on the records and clusters that are there: only on the
submission, the ingester, and the match keys. That is its deed.

A submission without a deed leaves the tables alone. One with a deed succeeds at the first attempt,
as long as identifiers do not run out. What it stores is assigned under every match key in turn,
with the values that the methods compute.
-/

namespace RecordLinkage

open Clustering Work Tables

variable {s s' : World} {now : Datestamp}

/-! ## Records by their keys -/

namespace Tables

variable {t t' : Tables} {key : RecordKey}

theorem key_of_recordOf? {row : RecordRow} (h : t.recordOf? key = some row) : row.key = key := by
  simpa using List.find?_some h

theorem recordOf?_map_repaid (t : Tables) (key k : RecordKey) (payload : Json) :
    (t.records.map (repaid key payload)).find? (fun r ↦ r.key = k)
      = (t.recordOf? k).map (repaid key payload) := by
  rw [List.find?_map, recordOf?]
  refine congrArg (Option.map _) (congrArg (List.find? · t.records) ?_)
  funext r
  simp only [Function.comp_apply, repaid_key]

/-- Storing under a key changes the record of that key. -/
theorem recordOf?_storeRecord {candidate : RecordId} {payload : Json} {cell : Cell RecordId}
    (hok : storeRecord candidate key payload t = .ok (cell, t')) :
    t'.recordOf? key = some ⟨cell, key, payload.text⟩ ∧
      ∀ k, k ≠ key → t'.recordOf? k = t.recordOf? k := by
  rcases storeRecord_ok_iff.mp hok with ⟨row, hrow, rfl, rfl⟩ | ⟨hnone, -, rfl, rfl⟩
  · have hkey := key_of_recordOf? hrow
    constructor
    · rw [recordOf?, recordOf?_map_repaid, hrow, Option.map_some, repaid, if_pos hkey, ← hkey]
    · intro k hk
      rw [recordOf?, recordOf?_map_repaid]
      rcases hold : t.recordOf? k with - | old
      · rfl
      · have hne : old.key ≠ key := fun h ↦ hk ((key_of_recordOf? hold).symm.trans h)
        rw [Option.map_some, repaid, if_neg hne]
  · constructor
    · rw [recordOf?, List.find?_append, ← recordOf?, hnone]
      simp
    · intro k hk
      rw [recordOf?, List.find?_append, ← recordOf?]
      have hlast : [(⟨.intact candidate, key, payload.text⟩ : RecordRow)].find?
          (fun r ↦ r.key = k) = none := by
        simp [hk.symm]
      rw [hlast, Option.or_none]

/-- Deleting the record of a key leaves the others. -/
theorem recordOf?_deleteRecord (t : Tables) (key : RecordKey) (now : Datestamp) :
    (t.deleteRecord key now).2.recordOf? key = none ∧
      ∀ k, k ≠ key → (t.deleteRecord key now).2.recordOf? k = t.recordOf? k := by
  have hrecords : (t.deleteRecord key now).2.records
      = t.records.filter fun r ↦ !decide (r.key = key) := rfl
  constructor
  · rw [recordOf?_eq_none_iff, hrecords]
    intro r hr
    simpa using (List.mem_filter.mp hr).2
  · intro k hk
    rw [recordOf?, hrecords, List.find?_filter, recordOf?]
    refine congrArg (List.find? · t.records) ?_
    funext r
    by_cases hr : r.key = k
    · simp [hr, hk]
    · simp [hr]

end Tables

/-! ## Deeds -/

/-- What a submission does to the records. -/
inductive Deed where
  /-- A payload is stored under a key. -/
  | store (key : RecordKey) (payload : Json)
  /-- The record of a key is removed. -/
  | remove (key : RecordKey)

/-- The key of a deed. -/
def Deed.key : Deed → RecordKey
  | store key _ | remove key => key

namespace Ingester

variable {i : Ingester} {submission : Submission} {payload : Json} {config : String}
  {r : RecordId} {keys : List (MatchKey × Method)}

/-- Whether a payload can be assigned under every match key: the method computes values, and the
match key is there. -/
def computes (i : Ingester) (t : Tables) (payload : Json) : Bool :=
  i.keys.all fun k ↦ t.hasMatchKey k.1.id && (k.2.matchValues payload).toOption.isSome

theorem computes_iff {t : Tables} : i.computes t payload = true ↔
    ∀ k ∈ i.keys, t.hasMatchKey k.1.id = true ∧ ∃ values, k.2.matchValues payload = .ok values := by
  simp only [computes, List.all_eq_true, Bool.and_eq_true]
  refine forall₂_congr fun k _ ↦ and_congr_right fun _ ↦ ?_
  rcases k.2.matchValues payload with f | values
  · exact ⟨fun h ↦ (nomatch h), fun ⟨_, h⟩ ↦ (nomatch h)⟩
  · exact ⟨fun _ ↦ ⟨values, rfl⟩, fun _ ↦ rfl⟩

/-- Why the values of a payload cannot be computed under all match keys, if that is so. -/
def uncomputed? (payload : Json) (keys : List (MatchKey × Method)) : Option Fault :=
  keys.findSome? fun k ↦ match k.2.matchValues payload with
    | .error f => some f
    | .ok _ => none

theorem uncomputed?_eq_none_iff : uncomputed? payload keys = none ↔
    ∀ k ∈ keys, ∃ values, k.2.matchValues payload = .ok values := by
  rw [uncomputed?, List.findSome?_eq_none_iff]
  refine forall₂_congr fun k _ ↦ ?_
  rcases k.2.matchValues payload with f | values
  · exact ⟨fun h ↦ (nomatch h), fun ⟨_, h⟩ ↦ (nomatch h)⟩
  · exact ⟨fun _ ↦ ⟨values, rfl⟩, fun _ ↦ rfl⟩

/-- The deed of a submission, if it has one. -/
def deed? (i : Ingester) (t : Tables) (submission : Submission) : Option Deed :=
  match i.access.check, i.localId submission with
  | .ok (), .ok localId =>
    if submission.delete then some (.remove (i.key localId))
    else
      match submission.payload with
      | some payload =>
        if i.computes t payload then some (.store (i.key localId) payload) else none
      | none => none
  | _, _ => none

/-- The sets of values that a record is assigned with under a match key, the latest first. -/
def setsUnder (limit : Nat) (config : String) (payload : Json) :
    List (MatchKey × Method) → List (List String)
  | [] => []
  | (k, method) :: rest =>
    setsUnder limit config payload rest ++
      if k.id = config then ((method.matchValues payload).toOption.map (truncate limit)).toList
      else []

/-- The sets of values that a payload is assigned with under a match key, the latest first. -/
def sets (i : Ingester) (config : String) (payload : Json) : List (List String) :=
  setsUnder i.limit config payload i.keys

theorem deed?_eq_store {t : Tables} {localId : String} (haccess : i.access.check = .ok ())
    (hlocal : i.localId submission = .ok localId) (hdelete : submission.delete = false)
    (hpayload : submission.payload = some payload) (hcomputes : i.computes t payload = true) :
    i.deed? t submission = some (.store (i.key localId) payload) := by
  simp [deed?, haccess, hlocal, hdelete, hpayload, hcomputes]

theorem deed?_eq_remove {t : Tables} {localId : String} (haccess : i.access.check = .ok ())
    (hlocal : i.localId submission = .ok localId) (hdelete : submission.delete = true) :
    i.deed? t submission = some (.remove (i.key localId)) := by
  simp [deed?, haccess, hlocal, hdelete]

/-- What a submission with a deed is like. -/
theorem deed?_cases {t : Tables} {d : Deed} (h : i.deed? t submission = some d) :
    i.access.check = .ok () ∧ ∃ localId, i.localId submission = .ok localId ∧
      (submission.delete = true ∧ d = .remove (i.key localId) ∨
        submission.delete = false ∧ ∃ payload, submission.payload = some payload ∧
          i.computes t payload = true ∧ d = .store (i.key localId) payload) := by
  rw [deed?] at h
  split at h
  · next localId haccess hlocal =>
    refine ⟨haccess, localId, hlocal, ?_⟩
    split_ifs at h with hdelete
    · exact Or.inl ⟨hdelete, (Option.some.inj h).symm⟩
    · refine Or.inr ⟨by simpa using hdelete, ?_⟩
      split at h
      · next payload hpayload =>
        split_ifs at h with hcomputes
        exact ⟨payload, hpayload, hcomputes, (Option.some.inj h).symm⟩
      · exact nomatch h
  · exact nomatch h

theorem deed?_congr {t t' : Tables} (h : t'.matchKeys = t.matchKeys) (submission : Submission) :
    i.deed? t' submission = i.deed? t submission := by
  have hkeys : ∀ payload, i.computes t' payload = i.computes t payload := fun payload ↦ by
    simp only [computes, hasMatchKey, h]
  simp only [deed?, hkeys]

/-- The deeds of submissions, in order. -/
def deeds (i : Ingester) (t : Tables) (submissions : List Submission) : List Deed :=
  submissions.filterMap (i.deed? t)

theorem deeds_cons (i : Ingester) (t : Tables) (submission : Submission)
    (rest : List Submission) :
    i.deeds t (submission :: rest) = (i.deed? t submission).toList ++ i.deeds t rest := by
  rw [deeds, List.filterMap_cons]
  rcases i.deed? t submission with - | d <;> rfl

theorem deeds_append (i : Ingester) (t : Tables) (a b : List Submission) :
    i.deeds t (a ++ b) = i.deeds t a ++ i.deeds t b :=
  List.filterMap_append

/-- Which deeds submissions have depends on the match keys only. -/
theorem deeds_congr {t t' : Tables} (h : t'.matchKeys = t.matchKeys)
    (submissions : List Submission) : i.deeds t' submissions = i.deeds t submissions :=
  List.filterMap_congr fun a _ ↦ deed?_congr h a

/-! ## Attempts -/

theorem ingest_grows (i : Ingester) (now : Datestamp) (submission : Submission) :
    Respects Grows (i.ingest now submission) :=
  respects_ingest Lasting.grows (fun _ _ _ _ ↦ (assign_grows _ _ _ _).achieves)
    (fun _ _ ↦ (enroll_grows _ _).achieves) (fun _ ↦ (i.delete_grows now _).achieves) submission

theorem attempt_ok {localId : String} {outcome : Outcome}
    (hgo : (i.attempt now submission localId).go s = (.ok outcome, s')) :
    i.access.check = .ok () ∧ (i.act now submission localId).go s = (.ok outcome, s') := by
  rw [attempt_eq, go_transaction] at hgo
  rcases hcheck : i.access.check with f | ⟨⟩
  · simp only [hcheck, Prod.mk.injEq, reduceCtorEq, false_and] at hgo
  · simp only [hcheck] at hgo
    exact ⟨rfl, go_atomically_ok.mp hgo⟩

/-- An attempt that fails while nothing stands in its way has used up what its body has. -/
theorem attempt_error {localId : String} {f : Fault} (haccess : i.access.check = .ok ())
    (hgo : (i.attempt now submission localId).go s = (.error f, s')) :
    ∃ s₁, (i.act now submission localId).go s = (.error f, s₁) ∧ s'.ids = s₁.ids := by
  rw [attempt_eq, go_transaction, haccess] at hgo
  simp only [go_atomically] at hgo
  rcases hact : (i.act now submission localId).go s with ⟨f' | outcome, s₁⟩
  · simp only [hact, Prod.mk.injEq, Except.error.injEq] at hgo
    obtain ⟨rfl, rfl⟩ := hgo
    exact ⟨s₁, rfl, rfl⟩
  · simp only [hact, Prod.mk.injEq, reduceCtorEq, false_and] at hgo

/-- A submission is carried out by its first attempt, if that succeeds. -/
theorem go_ingest_first {localId : String} (hlocal : i.localId submission = .ok localId)
    (hpayload : submission.delete = false → submission.payload ≠ none) (s : World) :
    (∃ outcome s', (i.attempt now submission localId).go s = (.ok outcome, s') ∧
        (i.ingest now submission).go s = (.ok outcome, s')) ∨
      ∃ f s₁, (i.attempt now submission localId).go s = (.error f, s₁) ∧
        Grows s₁ ((i.ingest now submission).go s).2 := by
  have hbody : (!submission.delete && submission.payload.isNone) = false := by
    rcases hdelete : submission.delete with - | -
    · simpa using Option.isSome_iff_ne_none.mpr (hpayload hdelete)
    · rfl
  have hingest : (i.ingest now submission).go s
      = go (ExceptT.mk (retry i.retries fun _ ↦ (i.attempt now submission localId).run)) s := by
    rw [ingest, go_bind, go_ofExcept, hlocal]
    simp only [hbody, Bool.false_eq_true, if_false]
  rw [hingest]
  refine go_retry_first Lasting.grows ?_ i.retries s
  exact .transaction Lasting.grows
    ((i.act_grows now submission localId).achieves.atomically Lasting.grows
      (i.act_grows now submission localId))

/-! ## Assigning a record under every match key -/

theorem forM_grows (i : Ingester) (now : Datestamp) (r : RecordId) (payload : Json)
    (keys : List (MatchKey × Method)) : Respects Grows (keys.forM (i.assignUnder now r payload)) :=
  .forM Lasting.grows _ fun _ ↦ .bind Lasting.grows (.ofExcept Lasting.grows _) fun _ ↦
    .bind Lasting.grows (assign_grows _ _ _ _) fun _ ↦ .pure Lasting.grows _

/-- Every match key gets the sets of values that belong to it. -/
theorem course_forM (ho : s.Orderly) (hids : s'.ids.next < idLimit)
    (hgo : (keys.forM (i.assignUnder now r payload)).go s = (.ok (), s')) : s'.Orderly ∧
      ∀ config, Course config s ((setsUnder i.limit config payload keys).map (r, ·)) s' := by
  induction keys generalizing s with
  | nil =>
    obtain rfl := (Prod.mk.inj hgo).2
    exact ⟨ho, fun _ ↦ .start⟩
  | cons k rest ih =>
    obtain ⟨⟨⟩, s₁, hfirst, hrest⟩ := go_bind_ok.mp hgo
    obtain ⟨values, a, hvalues, hassign⟩ := assignUnder_ok_iff.mp hfirst
    have hids₁ : s₁.ids.next < idLimit :=
      (show Grows s₁ s' from (i.forM_grows now r payload rest).achieves hrest).trans_lt hids
    obtain ⟨ho', hcourse⟩ := ih (((assign_keepsOrder _ _ _ _) hassign).2 hids₁.le ho) hrest
    have ha := assigned_of_ok ho.form hassign
    refine ⟨ho', fun config ↦ ?_⟩
    rw [setsUnder, List.map_append]
    refine .trans ?_ (hcourse config)
    by_cases hk : k.1.id = config
    · rw [if_pos hk, hvalues]
      rw [hk] at ha
      exact .assign .start ha (ho.record_lt r ha.stores) (ha.ids_le.trans_lt hids₁)
    · rw [if_neg hk]
      exact .spare .start (((assign_apart hk _ _ _) hassign).2 hids₁.le ho).2

/-- If it succeeds, then the payload can be assigned under every match key. -/
theorem computes_of_forM (hform : s.tables.Wellformed)
    (hgo : (keys.forM (i.assignUnder now r payload)).go s = (.ok (), s')) :
    ∀ k ∈ keys, s.tables.hasMatchKey k.1.id = true ∧
      ∃ values, k.2.matchValues payload = .ok values := by
  induction keys generalizing s with
  | nil => exact fun k hk ↦ absurd hk List.not_mem_nil
  | cons k rest ih =>
    obtain ⟨⟨⟩, s₁, hfirst, hrest⟩ := go_bind_ok.mp hgo
    obtain ⟨values, a, hvalues, hassign⟩ := assignUnder_ok_iff.mp hfirst
    have ha := assigned_of_ok hform hassign
    have hform₁ := ((assign_keepsForm _ _ _ _).achieves hassign) hform
    refine List.forall_mem_cons.mpr ⟨⟨ha.hasMatchKey, values, hvalues⟩, fun k' hk' ↦ ?_⟩
    obtain ⟨hkey, hvalues'⟩ := ih hform₁ hrest k' hk'
    rw [hasMatchKey, ha.matchKeys] at hkey
    exact ⟨hkey, hvalues'⟩

/-- If that fails, it does so at the first match key whose method does, as long as there are
identifiers. -/
theorem uncomputed?_of_forM_error {f : Fault} (ho : s.Orderly) (hr : s.tables.Stores r)
    (hkeys : ∀ k ∈ keys, s.tables.hasMatchKey k.1.id = true) (hids : s'.ids.next < idLimit)
    (hgo : (keys.forM (i.assignUnder now r payload)).go s = (.error f, s')) :
    uncomputed? payload keys = some f := by
  induction keys generalizing s with
  | nil => exact nomatch (Prod.mk.inj hgo).1
  | cons k rest ih =>
    have hgrows : Grows s s' := by
      have hg := i.forM_grows now r payload (k :: rest) s
      rwa [hgo] at hg
    obtain ⟨hkey, hrest⟩ := List.forall_mem_cons.mp hkeys
    change (i.assignUnder now r payload k >>= fun _ ↦ rest.forM _).go s = _ at hgo
    rw [uncomputed?, List.findSome?_cons]
    rcases hvalues : k.2.matchValues payload with f' | values
    · have hfirst : (i.assignUnder now r payload k).go s = (.error f', s) := by
        rw [assignUnder, go_bind, go_ofExcept, hvalues]
      rw [go_bind, hfirst] at hgo
      exact congrArg some (Except.error.inj (Prod.mk.inj hgo).1)
    · -- The first assignment succeeds, so one of the others has failed.
      obtain ⟨a, s₁, hassign⟩ := exists_assign now ho.form hkey hr
        (Sorted.nodup_ofList (values.map (cut i.limit))) (ho.fresh_mark (hgrows.trans_lt hids))
      have hfirst : (i.assignUnder now r payload k).go s = (.ok (), s₁) :=
        assignUnder_ok_iff.mpr ⟨values, a, hvalues, hassign⟩
      rw [go_bind, hfirst] at hgo
      dsimp only at hgo
      have hids₁ : s₁.ids.next ≤ idLimit := by
        have hg := i.forM_grows now r payload rest s₁
        rw [hgo] at hg
        exact (hg.trans_lt hids).le
      have ha := assigned_of_ok ho.form hassign
      have hr₁ : s₁.tables.Stores r := by
        rw [Stores, ha.records]
        exact hr
      refine ih (((assign_keepsOrder _ _ _ _) hassign).2 hids₁ ho) hr₁ (fun k' hk' ↦ ?_) hgo
      rw [hasMatchKey, ha.matchKeys]
      exact hrest k' hk'

/-! ## What becomes of a submission -/

/-- Storing a row succeeds, as long as there are identifiers. -/
theorem exists_enroll (key : RecordKey) (payload : Json) (ho : s.Orderly)
    (hids : s.ids.next < idLimit) : ∃ r s₁,
      (enroll key payload).go s = (.ok (⟨Uuid.ofNat s.ids.next⟩, .intact r), s₁) ∧
        s₁.ids.next = s.ids.next + 1 ∧ s₁.Orderly ∧ s₁.tables.Stores r ∧
        s₁.tables.matchKeys = s.tables.matchKeys := by
  obtain ⟨cell, t, hst⟩ : ∃ cell t,
      Tables.storeRecord ⟨Uuid.ofNat s.ids.next⟩ key payload s.tables = .ok (cell, t) := by
    rcases hrow : s.tables.recordOf? key with - | row
    · refine ⟨_, _, storeRecord_ok_iff.mpr (Or.inr ⟨hrow, fun r hr hid ↦ ?_, rfl, rfl⟩)⟩
      exact ho.fresh_record hids ⟨r, hr, hid⟩
    · exact ⟨_, _, storeRecord_ok_iff.mpr (Or.inl ⟨row, hrow, rfl, rfl⟩)⟩
  have hgo : (enroll key payload).go s = (.ok (⟨Uuid.ofNat s.ids.next⟩, cell),
      { s with tables := t, ids := ⟨s.ids.next + 1⟩ }) := by
    simp only [enroll, go_bind, go_mint, go_statement, hst, go_pure]
  have hrow := List.mem_of_find?_eq_some (recordOf?_storeRecord hst).1
  obtain ⟨r, rfl⟩ := (ho.form.storeRecord hst).record_intact _ hrow
  exact ⟨r, _, hgo, rfl, ((enroll_keepsOrder key payload) hgo).2 hids ho, ⟨_, hrow, rfl⟩,
    (storeRecord_frame hst).2.2.2⟩

/-- Storing fails only where no values can be computed, as long as there are identifiers. -/
theorem uncomputed?_of_store_error {localId : String} {f : Fault} (ho : s.Orderly)
    (hkeys : ∀ k ∈ i.keys, s.tables.hasMatchKey k.1.id = true) (hids : s'.ids.next < idLimit)
    (hgo : (i.store now localId payload).go s = (.error f, s')) :
    uncomputed? payload i.keys = some f := by
  have hgrows : Grows s s' := by
    have hg := i.store_grows now localId payload s
    rwa [hgo] at hg
  obtain ⟨r, s₁, henroll, -, ho₁, hr, hmatchKeys⟩ :=
    exists_enroll (i.key localId) payload ho (hgrows.trans_lt hids)
  rw [store_eq, go_bind, henroll] at hgo
  simp only [go_bind, go_ofExcept, Cell.read_intact, assignAll_eq] at hgo
  rcases hassign : (i.keys.forM (i.assignUnder now r payload)).go s₁ with ⟨f' | ⟨⟩, s₂⟩
  · rw [hassign] at hgo
    obtain ⟨hf, rfl⟩ := Prod.mk.inj hgo
    rw [← Except.error.inj hf]
    refine uncomputed?_of_forM_error ho₁ hr (fun k hk ↦ ?_) hids hassign
    rw [hasMatchKey, hmatchKeys]
    exact hkeys k hk
  · rw [hassign] at hgo
    cases (Prod.mk.inj hgo).1

/-- A submission without a deed fails and leaves the tables alone. -/
theorem ingest_of_deed?_none (hform : s.tables.Wellformed)
    (hdeed : i.deed? s.tables submission = none) :
    ∃ f s', (i.ingest now submission).go s = (.error f, s') ∧
      s'.tables = s.tables ∧ Grows s s' := by
  rcases i.go_ingest now submission s with hfail |
    ⟨localId, s₁, outcome, s', hlocal, htables, -, hattempt, -⟩
  · exact hfail
  · -- No attempt succeeds, because there would be a deed then.
    exfalso
    obtain ⟨haccess, hact⟩ := attempt_ok hattempt
    rw [act] at hact
    split_ifs at hact with hdelete
    · rw [deed?_eq_remove haccess hlocal hdelete] at hdeed
      exact Option.some_ne_none _ hdeed
    · rcases hpayload : submission.payload with - | payload
      · simp only [hpayload, go_fail, Prod.mk.injEq, reduceCtorEq, false_and] at hact
      · simp only [hpayload] at hact
        obtain ⟨_, _, r, s₂, henroll, -, hassign, -⟩ := store_ok hact
        obtain ⟨t, -, rfl, hst⟩ := enroll_ok henroll
        have hform₁ : s₁.tables.Wellformed := htables ▸ hform
        have hcomputes : i.computes s.tables payload = true := by
          refine computes_iff.mpr fun k hk ↦ ?_
          obtain ⟨hkey, hvalues⟩ := computes_of_forM (hform₁.storeRecord hst) hassign k hk
          rw [hasMatchKey, (storeRecord_frame hst).2.2.2, htables] at hkey
          exact ⟨hkey, hvalues⟩
        rw [deed?_eq_store haccess hlocal (by simpa using hdelete) hpayload hcomputes] at hdeed
        exact Option.some_ne_none _ hdeed

/-- A submission that removes a record deletes it. -/
theorem ingest_of_deed?_remove {key : RecordKey}
    (hdeed : i.deed? s.tables submission = some (.remove key)) :
    (i.ingest now submission).go s
      = (.ok (if (s.tables.deleteRecord key now).1 then .deleted else .ignored),
        { s with tables := (s.tables.deleteRecord key now).2 }) := by
  obtain ⟨haccess, localId, hlocal, ⟨hdelete, hd⟩ | ⟨-, _, -, -, hd⟩⟩ := deed?_cases hdeed
  · obtain rfl := Deed.remove.inj hd
    have hact : (i.act now submission localId).go s
        = (.ok (if (s.tables.deleteRecord (i.key localId) now).1 then .deleted else .ignored),
          { s with tables := (s.tables.deleteRecord (i.key localId) now).2 }) := by
      rw [act, if_pos hdelete, delete, go_bind, go_update]
      rfl
    rcases i.go_ingest_first hlocal (fun hno ↦ absurd (hdelete.symm.trans hno) (by decide)) s with
      ⟨outcome, s', hattempt, hgo⟩ | ⟨f, s₁, hattempt, -⟩
    · rw [hgo]
      exact (attempt_ok hattempt).2.symm.trans hact
    · obtain ⟨s₂, hfail, -⟩ := attempt_error haccess hattempt
      cases (Prod.mk.inj (hact.symm.trans hfail)).1
  · cases hd

/-- A submission that stores a record does so, as long as there are identifiers. -/
theorem ingest_of_deed?_store {key : RecordKey} (ho : s.Orderly)
    (hids : ((i.ingest now submission).go s).2.ids.next < idLimit)
    (hdeed : i.deed? s.tables submission = some (.store key payload)) :
    ∃ localId outcome s', key = i.key localId ∧
      (i.ingest now submission).go s = (.ok outcome, s') ∧
      (i.store now localId payload).go s = (.ok outcome, s') := by
  obtain ⟨haccess, localId, hlocal, ⟨-, hd⟩ | ⟨hdelete, payload', hpayload, hcomputes, hd⟩⟩ :=
    deed?_cases hdeed
  · exact nomatch hd
  · obtain ⟨rfl, rfl⟩ := Deed.store.inj hd
    have hact : i.act now submission localId = i.store now localId payload := by
      rw [act, hdelete, if_neg Bool.false_ne_true, hpayload]
    rcases i.go_ingest_first hlocal (fun _ ↦ by simp [hpayload]) s with
      ⟨outcome, s', hattempt, hgo⟩ | ⟨f, s₁, hattempt, hgrows⟩
    · exact ⟨localId, outcome, s', rfl, hgo, hact ▸ (attempt_ok hattempt).2⟩
    · obtain ⟨s₂, hfail, heq⟩ := attempt_error haccess hattempt
      rw [hact] at hfail
      have hkeys := computes_iff.mp hcomputes
      have hids₂ : s₂.ids.next < idLimit := heq ▸ hgrows.trans_lt hids
      have hnone := uncomputed?_of_store_error ho (fun k hk ↦ (hkeys k hk).1) hids₂ hfail
      rw [uncomputed?_eq_none_iff.mpr fun k hk ↦ (hkeys k hk).2] at hnone
      cases hnone

end Ingester

end RecordLinkage
