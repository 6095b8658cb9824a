import RecordLinkage.Proofs.Ingest.Convergence
import RecordLinkage.Proofs.Ingest.SetupAgain

/-!
# Why submissions are refused

A submission is refused because of what it says, or because of what stands in the way of writing.
What is stored plays no part in it: once an ingester is set up its match keys stay, and identifiers
do not run out. So the failures of a batch are the same whatever the order in which its submissions
are carried out, except for their own order.
-/

namespace RecordLinkage

open Clustering Work Tables

variable {i : Ingester} {w w₀ s s' : World} {now : Datestamp} {submission : Submission}
  {submissions : List Submission}

/-! ## Match keys that stay -/

/-- Match keys stay as they are. -/
def KeepsMatchKeys (s s' : World) : Prop := s.tables.Wellformed →
  s'.tables.Wellformed ∧ s'.tables.matchKeys = s.tables.matchKeys

theorem lasting_keepsMatchKeys : Lasting KeepsMatchKeys where
  trans h h' hform := by
    obtain ⟨hform', hkeys⟩ := h hform
    obtain ⟨hform'', hkeys'⟩ := h' hform'
    exact ⟨hform'', hkeys'.trans hkeys⟩
  idle htables _ hform := ⟨htables ▸ hform, by rw [htables]⟩

namespace Ingester

/-- Submissions write no match key. -/
theorem ingest_keepsMatchKeys (i : Ingester) (now : Datestamp) (submission : Submission) :
    Respects KeepsMatchKeys (i.ingest now submission) := by
  have hL := lasting_keepsMatchKeys
  refine respects_ingest hL (fun k _ r values s a s' hgo hform ↦ ?_)
    (fun localId payload s a s' hgo hform ↦ ?_) (fun localId ↦ ?_) submission
  · obtain ⟨hform', -, hkeys⟩ := assign_keepsRecords _ _ _ _ hgo hform
    exact ⟨hform', hkeys⟩
  · obtain ⟨t, -, rfl, hst⟩ := enroll_ok hgo
    exact ⟨hform.storeRecord hst, (storeRecord_frame hst).2.2.2⟩
  · refine .bind hL (.update fun s hform ↦ ?_) fun _ ↦ (Respects.pure hL _).achieves
    exact ⟨hform.deleteRecords _ now, rfl⟩

theorem carry_keepsMatchKeys (i : Ingester) (now : Datestamp) (submissions : List Submission)
    (s : World) : KeepsMatchKeys s (i.carry now submissions s).2 :=
  i.carry_respects now lasting_keepsMatchKeys (i.ingest_keepsMatchKeys now) submissions s

/-- All match keys of an ingester are there. -/
def Equipped (i : Ingester) (t : Tables) : Prop := ∀ k ∈ i.keys, t.hasMatchKey k.1.id = true

theorem Equipped.congr {t t' : Tables} (h : i.Equipped t) (hkeys : t'.matchKeys = t.matchKeys) :
    i.Equipped t' := by
  intro k hk
  rw [hasMatchKey, hkeys]
  exact h k hk

/-- An ingester that was set up is equipped. -/
theorem equipped_of_create {access : Access} {tenant : TenantId} {request : IngestRequest}
    {settings : IngestSettings}
    (hcreate : (create access tenant request settings).go w = (.ok i, w₀)) :
    i.Equipped w₀.tables := by
  intro k hk
  obtain ⟨htables, -⟩ := create_ok hcreate
  have hmem : k.1.id ∈ i.matchKeys := List.mem_map_of_mem hk
  obtain ⟨row, hrow, hid, -⟩ := (mem_matchKeys_iff hcreate).mp hmem
  rw [htables, hasMatchKey, List.any_eq_true]
  exact ⟨row, hrow, decide_eq_true hid⟩

/-! ## One submission -/

/-- **Why a submission is refused**, if it is. -/
def refusal? (i : Ingester) (submission : Submission) : Option Fault :=
  match i.localId submission with
  | .error f => some f
  | .ok _ =>
    if !submission.delete && submission.payload.isNone then some (.validation "payload required")
    else
      match i.access.check with
      | .error f => some f
      | .ok () =>
        if submission.delete then none
        else submission.payload.bind fun payload ↦ uncomputed? payload i.keys

/-- Deleting does not fail. -/
theorem go_delete (i : Ingester) (now : Datestamp) (localId : String) (s : World) :
    ∃ outcome s', (i.delete now localId).go s = (.ok outcome, s') := by
  rw [delete, go_bind, go_update]
  exact ⟨_, _, rfl⟩

/-- An attempt fails because nothing can be written, or because values cannot be computed. -/
theorem attempt_cases {localId : String} {f : Fault} (ho : s.Orderly) (hkeys : i.Equipped s.tables)
    (hids : s'.ids.next < idLimit)
    (hbody : ¬(!submission.delete && submission.payload.isNone) = true)
    (hgo : (i.attempt now submission localId).go s = (.error f, s')) :
    i.access.check = .error f ∨ i.access.check = .ok () ∧ submission.delete = false ∧
      (submission.payload.bind fun payload ↦ uncomputed? payload i.keys) = some f := by
  rcases hcheck : i.access.check with f' | ⟨⟩
  · rw [attempt_eq, go_transaction, hcheck] at hgo
    exact Or.inl (congrArg _ (Except.error.inj (Prod.mk.inj hgo).1))
  obtain ⟨s₁, hact, heq⟩ := attempt_error hcheck hgo
  have hids₁ : s₁.ids.next < idLimit := heq ▸ hids
  have hgrows := i.act_grows now submission localId s
  rw [hact] at hgrows
  rw [act] at hact
  rcases hdelete : submission.delete with - | -
  · rcases hpayload : submission.payload with - | payload
    · simp [hdelete, hpayload] at hbody
    · simp only [hdelete, Bool.false_eq_true, if_false, hpayload] at hact
      exact Or.inr ⟨rfl, rfl, uncomputed?_of_store_error ho hkeys hids₁ hact⟩
  · obtain ⟨outcome, s₂, hok⟩ := i.go_delete now localId s
    rw [if_pos hdelete, hok] at hact
    cases (Prod.mk.inj hact).1

/-- A submission that fails is refused for this reason, as long as there are identifiers. -/
theorem refusal?_of_error {f : Fault} (ho : s.Orderly) (hkeys : i.Equipped s.tables)
    (hids : s'.ids.next < idLimit)
    (hgo : (i.ingest now submission).go s = (.error f, s')) : i.refusal? submission = some f := by
  rw [ingest, go_bind, go_ofExcept] at hgo
  rw [refusal?]
  rcases hlocal : i.localId submission with f' | localId <;> rw [hlocal] at hgo
  · exact congrArg some (Except.error.inj (Prod.mk.inj hgo).1)
  dsimp only at hgo ⊢
  by_cases hbody : (!submission.delete && submission.payload.isNone) = true
  · rw [if_pos hbody] at hgo ⊢
    exact congrArg some (Except.error.inj (Prod.mk.inj hgo).1)
  rw [if_neg hbody] at hgo ⊢
  have hidle : ∀ {s f s'}, (i.attempt now submission localId).go s = (.error f, s') → Idles s s' :=
    fun h ↦ transaction_error (i.act_grows now submission localId) h
  -- It is the last attempt that says why.
  obtain ⟨s₁, ⟨htables, hgrows⟩, hlast⟩ := last_of_retry_error lasting_idles hidle hgo
  have hids₁ : s₁.ids.next < idLimit := (hidle hlast).2.trans_lt hids
  have ho₁ : s₁.Orderly := (lasting_keepsOrder.idle htables hgrows).2 hids₁.le ho
  rcases attempt_cases ho₁ (htables.symm ▸ hkeys) hids hbody hlast with
    hcheck | ⟨hcheck, hdelete, hvalues⟩
  · rw [hcheck]
  · rw [hcheck]
    dsimp only
    rw [if_neg (Bool.eq_false_iff.mp hdelete), hvalues]

/-- A submission that succeeds is not refused. -/
theorem refusal?_of_ok {outcome : Outcome} (hform : s.tables.Wellformed)
    (hgo : (i.ingest now submission).go s = (.ok outcome, s')) : i.refusal? submission = none := by
  rcases hdeed : i.deed? s.tables submission with - | d
  · obtain ⟨f, s₁, hfail, -⟩ : ∃ f s₁, (i.ingest now submission).go s = (.error f, s₁) ∧ _ :=
      ingest_of_deed?_none hform hdeed
    cases (Prod.mk.inj (hgo.symm.trans hfail)).1
  · obtain ⟨haccess, localId, hlocal, ⟨hdelete, -⟩ | ⟨hdelete, payload, hpayload, hcomputes, -⟩⟩ :=
      deed?_cases hdeed
    · simp [refusal?, haccess, hlocal, hdelete]
    · have hvalues : uncomputed? payload i.keys = none :=
        uncomputed?_eq_none_iff.mpr fun k hk ↦ (computes_iff.mp hcomputes k hk).2
      simp [refusal?, haccess, hlocal, hdelete, hpayload, hvalues]

/-! ## Batches -/

/-- The failure that is counted for a submission that is refused. -/
def refused? (i : Ingester) (submission : Submission) : Option Failure :=
  (i.refusal? submission).map fun f ↦ ⟨submission.localId, f.message⟩

theorem failure?_ingest (ho : s.Orderly) (hkeys : i.Equipped s.tables)
    (hids : ((i.ingest now submission).go s).2.ids.next < idLimit) :
    submission.failure? ((i.ingest now submission).go s).1 = i.refused? submission := by
  rcases hgo : (i.ingest now submission).go s with ⟨f | outcome, s'⟩
  · rw [hgo] at hids
    rw [refused?, refusal?_of_error ho hkeys hids hgo]
    rfl
  · rw [refused?, refusal?_of_ok ho.form hgo]
    rfl

/-- **The failures of submissions do not depend on what is stored.** -/
theorem losses_eq (ho : s.Orderly) (hkeys : i.Equipped s.tables)
    (hids : (i.carry now submissions s).2.ids.next < idLimit) :
    i.losses now submissions s = submissions.filterMap i.refused? := by
  induction submissions generalizing s with
  | nil => rfl
  | cons submission rest ih =>
    rw [carry_cons] at hids
    have hids₁ := (i.carry_grows now rest _).trans_lt hids
    obtain ⟨-, hdealt⟩ := ingest_dealt ho hids₁
    rw [losses, failure?_ingest ho hkeys hids₁, ih hdealt.orderly (hkeys.congr hdealt.matchKeys)
      hids, List.filterMap_cons]
    rcases i.refused? submission with - | failure <;> rfl

end Ingester

/-- **Batches that carry out the same submissions have the same failures**, in some order. -/
theorem Batch.failures_perm {order order' : List Submission} (hperm : order.Perm order')
    (ho : s.Orderly) (hkeys : i.Equipped s.tables) (values : List Json)
    (hids : (i.carry now order s).2.ids.next < idLimit)
    (hids' : (i.carry now order' s).2.ids.next < idLimit) :
    (failures i now order values s).Perm (failures i now order' values s) := by
  rw [failures, failures, Ingester.losses_eq ho hkeys hids, Ingester.losses_eq ho hkeys hids']
  exact (hperm.filterMap _).append_left _

end RecordLinkage
