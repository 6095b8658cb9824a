import RecordLinkage.Proofs.History.Sound

/-!
# Every change is dated

Whenever the values or the members of a cluster change, its mark is new or its datestamp grows, and
is not before the time of the change. Harvesters rely on this. It holds of whole operations, in
which a cluster may be touched many times, as the winner, as one of those that are merged into it,
as the cluster that a record leaves, or because one of its records is deleted.

`Forward` compares the tables before and after a stretch of work at one reading of the clock. Over
two stretches it composes, because datestamps never go back. That is why one assignment is all that
has to be looked at.

A datestamp that has left the 64-bit numbers does not grow any more, and cannot be read either.
-/

namespace RecordLinkage

open Clustering Work Tables

variable {now : Datestamp} {s s' : World} {t t' t'' : Tables} {c : String} {x : ClusterId}

/-! ## Moving forward -/

namespace Tables

/-- A cluster has other members or other values than before. -/
def Differs (t t' : Tables) (c : String) (x : ClusterId) : Prop :=
  (∃ q, ¬(t'.Holds c x q ↔ t.Holds c x q)) ∨ ∃ v, ¬(t'.Owns c x v ↔ t.Owns c x v)

/-- A cluster is marked anew, or its datestamp has advanced. -/
def Renewed (now : Datestamp) (t t' : Tables) (c : String) (x : ClusterId) : Prop :=
  ∃ m' ∈ t'.marks, m'.cluster = x ∧ m'.config = c ∧ now ≤ m'.datestamp ∧
    ∀ m ∈ t.marks, m.cluster = x → m.datestamp.advance now ≤ m'.datestamp

/-- Marks stay, datestamps do not go back, and what is new or changes is renewed. -/
structure Forward (now : Datestamp) (t t' : Tables) : Prop where
  kept : ∀ m ∈ t.marks, ∃ m' ∈ t'.marks, m'.cluster = m.cluster ∧ m'.config = m.config ∧
    m.datestamp ≤ m'.datestamp
  started : ∀ c x, t'.Marked c x → t.Marked c x ∨ Renewed now t t' c x
  renewed : ∀ c x, Differs t t' c x → Renewed now t t' c x

theorem Renewed.later {low : Datestamp} (h : Renewed now t t' c x) (h' : Forward low t' t'') :
    Renewed now t t'' c x := by
  obtain ⟨m', hm', rfl, rfl, hnow, hold⟩ := h
  obtain ⟨m'', hm'', hx, hc, hle⟩ := h'.kept m' hm'
  exact ⟨m'', hm'', hx, hc, hnow.trans hle, fun m hm hmx ↦ (hold m hm hmx).trans hle⟩

theorem Renewed.earlier (h : Renewed now t' t'' c x) (h' : Forward now t t') :
    Renewed now t t'' c x := by
  obtain ⟨m'', hm'', hx, hc, hnow, hold⟩ := h
  refine ⟨m'', hm'', hx, hc, hnow, fun m hm hmx ↦ ?_⟩
  obtain ⟨m', hm', hmx', -, hle⟩ := h'.kept m hm
  exact (Datestamp.advance_mono hle now).trans (hold m' hm' (hmx'.trans hmx))

theorem Differs.cases (h : Differs t t'' c x) (t' : Tables) :
    Differs t t' c x ∨ Differs t' t'' c x := by
  by_contra hno
  simp only [Differs, not_or, not_exists, not_not] at hno
  obtain ⟨⟨hh, ho⟩, hh', ho'⟩ := hno
  rcases h with ⟨q, hq⟩ | ⟨v, hv⟩
  · exact hq ((hh' q).trans (hh q))
  · exact hv ((ho' v).trans (ho v))

theorem Forward.trans (h : Forward now t t') (h' : Forward now t' t'') :
    Forward now t t'' where
  kept m hm := by
    obtain ⟨m', hm', hx, hc, hle⟩ := h.kept m hm
    obtain ⟨m'', hm'', hx', hc', hle'⟩ := h'.kept m' hm'
    exact ⟨m'', hm'', hx'.trans hx, hc'.trans hc, hle.trans hle'⟩
  started c x hx := by
    rcases h'.started c x hx with hx | hx
    · exact (h.started c x hx).imp_right fun hx ↦ hx.later h'
    · exact Or.inr (hx.earlier h)
  renewed c x hdiff := by
    rcases hdiff.cases t' with hd | hd
    · exact (h.renewed c x hd).later h'
    · exact (h'.renewed c x hd).earlier h

/-- Where marks, owners and members stay, nothing changes. -/
theorem Forward.of_frame (hmarks : t'.marks = t.marks) (howners : t'.owners = t.owners)
    (hmembers : t'.members = t.members) : Forward now t t' where
  kept m hm := ⟨m, hmarks ▸ hm, rfl, rfl, le_rfl⟩
  started c x hx := by
    rw [Marked, hmarks] at hx
    exact Or.inl hx
  renewed c x h := by
    rcases h with ⟨q, hq⟩ | ⟨v, hv⟩
    · exact absurd (by rw [Holds, hmembers, Holds]) hq
    · exact absurd (by rw [Owns, howners, Owns]) hv

end Tables

/-- Clusters are marked under identifiers that come from the supply. -/
def MintsMarks (s s' : World) : Prop :=
  s'.ids.next ≤ idLimit → ∀ c x, s'.tables.Marked c x → s.tables.Marked c x ∨ s.ids.next ≤ x.toNat

theorem MintsMarks.of_marks (h : s'.tables.marks = s.tables.marks) : MintsMarks s s' := by
  intro _ c x hx
  rw [Marked, h] at hx
  exact Or.inl hx

/-- Sound tables stay sound, and move forward. -/
def Advances (now : Datestamp) (s s' : World) : Prop :=
  Grows s s' ∧ (s.tables.Sound →
    s'.tables.Sound ∧ Forward now s.tables s'.tables ∧ MintsMarks s s')

theorem lasting_advances (now : Datestamp) : Lasting (Advances now) where
  trans {s s' s''} h h' := by
    refine ⟨h.1.trans h'.1, fun hs ↦ ?_⟩
    obtain ⟨hs', hp, hm⟩ := h.2 hs
    obtain ⟨hs'', hp', hm'⟩ := h'.2 hs'
    refine ⟨hs'', hp.trans hp', fun hids c x hx ↦ ?_⟩
    rcases hm' hids c x hx with hx | hx
    · exact hm (h'.1.trans hids) c x hx
    · exact Or.inr (h.1.trans hx)
  idle {s s'} htables hg := by
    refine ⟨hg, fun hs ↦ ⟨htables ▸ hs, ?_, .of_marks (by rw [htables])⟩⟩
    exact .of_frame (by rw [htables]) (by rw [htables]) (by rw [htables])

theorem achieves_advances {α : Type} {w : Work α} (hw : Achieves KeepsSound w)
    (h : ∀ {s a s'}, w.go s = (.ok a, s') → s.tables.Sound →
      Forward now s.tables s'.tables ∧ MintsMarks s s') : Achieves (Advances now) w :=
  fun _ _ _ hgo ↦ ⟨(hw hgo).1.1, fun hs ↦ ⟨(hw hgo).2 hs, h hgo hs⟩⟩

/-! ## One step -/

namespace Clustering.Assigned

variable {r : RecordId} {config : String} {values : List String} {a : Assignment}

/-- Only the winner may be marked for the first time, and then it is a new cluster. -/
theorem marked_cases (ha : Assigned now r config values a s s') (hx : s'.tables.Marked c x) :
    s.tables.Marked c x ∨ c = config ∧ x = a.cluster ∧ a.cluster = ⟨Uuid.ofNat s.ids.next⟩ ∧
      s'.ids.next = s.ids.next + 1 := by
  obtain ⟨m', hm', rfl, rfl⟩ := hx
  obtain ⟨changed, new, -, hnew, hmarks⟩ := ha.marks
  rw [hmarks] at hm'
  rcases List.mem_append.mp hm' with hm' | hm'
  · obtain ⟨m, hm, rfl⟩ := List.mem_map.mp hm'
    exact Or.inl ⟨m, hm, (advanced_cluster ..).symm, (advanced_config ..).symm⟩
  · rcases hnew with ⟨rfl, -⟩ | ⟨rfl, hno, -⟩
    · exact absurd hm' List.not_mem_nil
    · rw [List.mem_singleton.mp hm']
      exact Or.inr ⟨rfl, rfl, ha.minted hno⟩

theorem mintsMarks (ha : Assigned now r config values a s s') : MintsMarks s s' := by
  intro hids c x hx
  refine (ha.marked_cases hx).imp_right ?_
  rintro ⟨-, rfl, hcluster, hnext⟩
  rw [hnext] at hids
  rw [hcluster]
  exact (Uuid.toNat_ofNat hids).ge

end Clustering.Assigned

theorem Tables.kept_advanced {marks : List ClusterMark} {changed : ClusterId → Bool}
    (h : ∀ m ∈ marks, m.datestamp ≤ Datestamp.limit) {m : ClusterMark} (hm : m ∈ marks) :
    m.datestamp ≤ (advanced changed now m).datestamp := by
  rw [advanced]
  split_ifs
  · exact Datestamp.le_advance (h m hm) now
  · exact le_rfl

theorem Tables.datestamp_advanced {changed : ClusterId → Bool} {m : ClusterMark}
    (h : changed m.cluster = true) :
    (advanced changed now m).datestamp = m.datestamp.advance now := by
  rw [advanced, if_pos h]

namespace Tables.Sound

variable {r : RecordId} {config : String} {values : List String} {a : Assignment}

/-- A mark that advances renews its cluster. -/
theorem renewed_of_advanced (h : s.tables.Sound) {changed : ClusterId → Bool}
    {new : List ClusterMark} (hmarks : t'.marks = s.tables.marks.map (advanced changed now) ++ new)
    (hx : s.tables.Marked c x) (hchanged : changed x = true) : Renewed now s.tables t' c x := by
  obtain ⟨m, hm, rfl, rfl⟩ := hx
  have hstamp : (advanced changed now m).datestamp = m.datestamp.advance now :=
    datestamp_advanced hchanged
  refine ⟨advanced changed now m, ?_, advanced_cluster .., advanced_config .., ?_, ?_⟩
  · rw [hmarks]
    exact List.mem_append_left _ (List.mem_map_of_mem hm)
  · rw [hstamp]
    exact Datestamp.le_advance_now _ _
  · intro m' hm' hx'
    rw [hstamp, List.inj_on_of_nodup_map h.form.mark_nodup hm' hm hx']

/-- An assignment renews the former owners, the winner, and the cluster that the record leaves. -/
theorem renewed_assigned (h : s.tables.Sound) (ha : Assigned now r config values a s s')
    (hx : Touches s.tables config values x ∨ x = a.cluster ∨ s.tables.Holds config x r) :
    Renewed now s.tables s'.tables config x := by
  obtain ⟨changed, new, hchanged, hnew, hmarks⟩ := ha.marks
  by_cases ht : Touches s.tables config values x
  · obtain ⟨v, -, hv⟩ := id ht
    exact h.renewed_of_advanced hmarks (h.owner_marked config x v hv)
      ((hchanged x).mpr (Or.inl ht))
  · by_cases hwinner : x = a.cluster
    · -- The winner is no former owner, so it is new.
      subst hwinner
      rcases hnew with ⟨-, ht'⟩ | ⟨rfl, -, hfresh⟩
      · exact absurd ht' ht
      · refine ⟨⟨a.cluster, config, now⟩, ?_, rfl, rfl, le_rfl, ?_⟩
        · rw [hmarks]
          exact List.mem_append_right _ (List.mem_singleton_self _)
        · exact fun m hm heq ↦ absurd heq (hfresh m hm)
    · have hr := (hx.resolve_left ht).resolve_left hwinner
      exact h.renewed_of_advanced hmarks (h.member_marked config x r hr)
        ((hchanged x).mpr (Or.inr ⟨hr, hwinner⟩))

theorem forward_assigned (h : s.tables.Sound) (ha : Assigned now r config values a s s') :
    Forward now s.tables s'.tables where
  kept m hm := by
    obtain ⟨changed, new, -, -, hmarks⟩ := ha.marks
    refine ⟨advanced changed now m, ?_, advanced_cluster .., advanced_config ..,
      kept_advanced h.stamp_le hm⟩
    rw [hmarks]
    exact List.mem_append_left _ (List.mem_map_of_mem hm)
  started c x hx := by
    rcases ha.marked_cases hx with hx | ⟨rfl, rfl, -⟩
    · exact Or.inl hx
    · exact Or.inr (h.renewed_assigned ha (Or.inr (Or.inl rfl)))
  renewed c x hdiff := by
    by_cases hc : c = config
    · subst hc
      refine h.renewed_assigned ha ?_
      -- Any other cluster owns the same values and holds the same records.
      by_contra hno
      simp only [not_or] at hno
      obtain ⟨ht, hwinner, hr⟩ := hno
      rcases hdiff with ⟨q, hq⟩ | ⟨v, hv⟩
      · refine hq ((ha.holds_untouched ht hwinner q).trans ⟨And.right, fun hxq ↦ ⟨?_, hxq⟩⟩)
        rintro rfl
        exact hr hxq
      · exact hv (ha.owns_untouched ht hwinner v)
    · rcases hdiff with ⟨q, hq⟩ | ⟨v, hv⟩
      · exact absurd (ha.holds_other c x q hc) hq
      · exact absurd (ha.owns_other c x v hc) hv

theorem forward_deleteRecords (h : s.tables.Sound) (fits : RecordRow → Bool) (now : Datestamp) :
    Forward now s.tables (s.tables.deleteRecords fits now).2 where
  kept m hm := ⟨_, List.mem_map_of_mem hm, advanced_cluster .., advanced_config ..,
    kept_advanced h.stamp_le hm⟩
  started c x hx := Or.inl (marked_advanceWhere.mp hx)
  renewed c x hdiff := by
    rcases hdiff with ⟨q, hq⟩ | ⟨v, hv⟩
    · -- The record is gone, so the cluster held a record that fits.
      rw [h.form.holds_deleteRecords] at hq
      have hx : s.tables.Holds c x q := by
        by_contra hno
        exact hq ⟨And.left, fun hx ↦ absurd hx hno⟩
      have hgone : ¬(s.tables.deleteRecords fits now).2.Stores q := fun hs ↦
        hq ⟨And.left, fun _ ↦ ⟨hx, hs⟩⟩
      obtain ⟨row, hrow, hid⟩ := h.form.stores_of_holds hx
      have hfits : fits row = true := by
        by_contra hno
        exact hgone (stores_deleteRecords.mpr ⟨row, hrow, hid, by simpa using hno⟩)
      have hmarks : (s.tables.deleteRecords fits now).2.marks
          = s.tables.marks.map (advanced (s.tables.holdsRecord fits) now) ++ [] := by
        rw [List.append_nil]
        rfl
      refine h.renewed_of_advanced hmarks (h.member_marked c x q hx) ?_
      rw [holdsRecord, List.any_eq_true]
      refine ⟨_, hx, ?_⟩
      simp only [decide_true, Bool.true_and, List.any_eq_true, Bool.and_eq_true, decide_eq_true_eq]
      exact ⟨row, hrow, hid, hfits⟩
    · exact absurd Iff.rfl hv

end Tables.Sound

theorem assign_advances (hnow : now < Datestamp.limit) (r : RecordId) (config : String)
    (values : List String) : Achieves (Advances now) (Clustering.assign now r config values) :=
  achieves_advances (assign_keepsSound hnow r config values) fun hgo hs ↦
    let ha := assigned_of_ok hs.form hgo
    ⟨hs.forward_assigned ha, ha.mintsMarks⟩

theorem enroll_advances (now : Datestamp) (key : RecordKey) (payload : Json) :
    Achieves (Advances now) (Ingester.enroll key payload) := by
  refine achieves_advances (enroll_keepsSound key payload) fun hgo _ ↦ ?_
  obtain ⟨t, -, rfl, hst⟩ := Ingester.enroll_ok hgo
  obtain ⟨hmarks, howners, hmembers, -⟩ := Ingester.storeRecord_frame hst
  exact ⟨.of_frame hmarks howners hmembers, .of_marks hmarks⟩

theorem deleteRecords_advances {α : Type} {f : Tables → α × Tables} (fits : RecordRow → Bool)
    (hnow : now < Datestamp.limit) (hf : ∀ t, (f t).2 = (t.deleteRecords fits now).2) :
    Achieves (Advances now) (update f) := by
  refine achieves_advances (deleteRecords_keepsSound fits hnow hf) fun hgo hs ↦ ?_
  obtain ⟨t, hst, rfl⟩ := go_statement_ok.mp hgo
  obtain rfl : (f _).2 = t := (Prod.mk.inj (Except.ok.inj hst)).2
  rw [hf]
  exact ⟨hs.forward_deleteRecords fits now, fun _ c x hx ↦ Or.inl (marked_advanceWhere.mp hx)⟩

/-! ## The record that is stored again -/

namespace Ingester

variable {i : Ingester} {r : RecordId} {payload : Json}

/-- After a record was assigned under several match keys, its clusters are renewed. -/
private theorem renewed_of_forM {keys : List (MatchKey × Method)} (hnow : now < Datestamp.limit)
    (hs : s.tables.Sound) (hgo : (keys.forM (i.assignUnder now r payload)).go s = (.ok (), s'))
    {k : MatchKey × Method} (hk : k ∈ keys)
    (hx : s'.tables.Holds k.1.id x r) : Renewed now s.tables s'.tables k.1.id x := by
  induction keys generalizing s with
  | nil => exact absurd hk List.not_mem_nil
  | cons k₀ rest ih =>
    have hunder : ∀ k, Achieves (Advances now) (i.assignUnder now r payload k) := by
      intro k s _ s' hgo
      obtain ⟨values, a, -, hassign⟩ := assignUnder_ok_iff.mp hgo
      exact assign_advances hnow r k.1.id _ hassign
    obtain ⟨⟨⟩, s₁, hfirst, hgo⟩ := go_bind_ok.mp hgo
    obtain ⟨hs₁, hp₁, -⟩ := (hunder k₀ hfirst).2 hs
    obtain ⟨-, hp, -⟩ :=
      (Achieves.forM (lasting_advances now) rest (fun k _ ↦ hunder k) hgo).2 hs₁
    rcases List.mem_cons.mp hk with rfl | hk
    · -- Either a later assignment has changed the cluster, or this one has put the record there.
      by_cases hd : Differs s₁.tables s'.tables k.1.id x
      · exact (hp.renewed _ x hd).earlier hp₁
      · have hx₁ : s₁.tables.Holds k.1.id x r := by
          by_contra hno
          exact hd (Or.inl ⟨r, fun h ↦ hno (h.mp hx)⟩)
        obtain ⟨values, a, -, hassign⟩ := assignUnder_ok_iff.mp hfirst
        have ha := assigned_of_ok hs.form hassign
        have hwinner : x = a.cluster :=
          (((ha.holds x r).mp hx₁).resolve_right fun h ↦ h.1 rfl).2
        exact (hs.renewed_assigned ha (Or.inr (Or.inl hwinner))).later hp
    · exact (ih hs₁ hgo hk).earlier hp₁

/-- The row of a record is there after it was stored, under the identifier that it was given. -/
theorem exists_row_of_enroll {key : RecordKey} {result : RecordId × Cell RecordId}
    (hgo : (enroll key payload).go s = (.ok result, s')) :
    ∃ row ∈ s'.tables.records, row.key = key ∧ row.id = result.2 := by
  obtain ⟨t, -, rfl, hst⟩ := enroll_ok hgo
  rcases storeRecord_ok_iff.mp hst with ⟨row, hrow, hcell, rfl⟩ | ⟨-, -, hcell, rfl⟩
  · have hkey : row.key = key := by simpa using List.find?_some hrow
    exact ⟨_, List.mem_map_of_mem (List.mem_of_find?_eq_some hrow), (repaid_key ..).trans hkey,
      (repaid_id ..).trans hcell.symm⟩
  · exact ⟨_, List.mem_append_right _ (List.mem_singleton_self _), rfl, hcell.symm⟩

/-- The clusters of a record that was stored are renewed. -/
theorem renewed_of_store {localId : String} {outcome : Outcome} (hnow : now < Datestamp.limit)
    (hs : s.tables.Sound) (hgo : (i.store now localId payload).go s = (.ok outcome, s'))
    {row : RecordRow} (hrow : row ∈ s'.tables.records)
    (hkey : row.key = i.key localId) (hid : row.id = .intact r) (hc : c ∈ i.matchKeys)
    (hx : s'.tables.Holds c x r) : Renewed now s.tables s'.tables c x := by
  obtain ⟨candidate, cell, r', s₁, henroll, hread, hassign, -⟩ := store_ok hgo
  obtain ⟨hs₁, hp₁, -⟩ := (enroll_advances now (i.key localId) payload henroll).2 hs
  obtain ⟨hform', hrecords, -⟩ := i.assignAll_keepsRecords now r' payload hassign hs₁.form
  -- The key belongs to one row, so the record is the one that was assigned.
  obtain ⟨row', hrow', hkey', hid'⟩ := exists_row_of_enroll henroll
  have heq : row' = row :=
    List.inj_on_of_nodup_map hform'.recordKey_nodup (hrecords ▸ hrow') hrow
      (hkey'.trans hkey.symm)
  have hcell : cell = .intact r := by
    rw [← hid, ← heq]
    exact hid'.symm
  have hr : r' = r := by
    rw [hcell] at hread
    exact (Except.ok.inj hread).symm
  obtain ⟨k, hk, rfl⟩ := List.mem_map.mp hc
  subst hr
  exact (renewed_of_forM hnow hs₁ hassign hk hx).earlier hp₁

/-- The clusters of a record that a submission has stored are renewed. -/
theorem renewed_of_ingest {submission : Submission} {localId : String} {outcome : Outcome}
    (hnow : now < Datestamp.limit) (hs : s.tables.Sound)
    (hgo : (i.ingest now submission).go s = (.ok outcome, s'))
    (hstores : submission.delete = false) (hlocal : i.localId submission = .ok localId)
    {row : RecordRow} (hrow : row ∈ s'.tables.records) (hkey : row.key = i.key localId)
    (hid : row.id = .intact r) (hc : c ∈ i.matchKeys) (hx : s'.tables.Holds c x r) :
    Renewed now s.tables s'.tables c x := by
  rcases i.go_ingest now submission s with ⟨f, s'', hfail, -⟩ |
    ⟨localId', s₁, outcome', s'', hlocal', htables, -, hattempt, hok⟩
  · exact nomatch (Prod.mk.inj (hgo.symm.trans hfail)).1
  · obtain ⟨-, rfl⟩ := Prod.mk.inj (hgo.symm.trans hok)
    obtain rfl := Except.ok.inj (hlocal.symm.trans hlocal')
    rw [attempt_eq, go_transaction] at hattempt
    rcases hcheck : i.access.check with f | ⟨⟩
    · simp only [hcheck, Prod.mk.injEq, reduceCtorEq, false_and] at hattempt
    · simp only [hcheck] at hattempt
      have hact := go_atomically_ok.mp hattempt
      rw [act, hstores, if_neg Bool.false_ne_true] at hact
      rcases hpayload : submission.payload with - | payload
      · simp only [hpayload, go_fail, Prod.mk.injEq, reduceCtorEq, false_and] at hact
      · simp only [hpayload] at hact
        rw [← htables] at hs ⊢
        exact renewed_of_store hnow hs hact hrow hkey hid hc hx

end Ingester

/-! ## Operations -/

open Operation

/-- **A timed operation moves the tables forward**, whether it succeeds or not. -/
theorem respects_advances {op : Operation} (hop : op.IsEngine) (hreading : op.reading? = some now)
    (hnow : now < Datestamp.limit) (access : Access) :
    Respects (Advances now) (op.work access) :=
  respects_timed (lasting_advances now) hop hreading
    (fun c _ r values ↦ assign_advances hnow r c values) (enroll_advances now)
    (fun fits ↦ deleteRecords_advances fits hnow) access

/-- A call stores a record, and afterwards a cluster holds it under a match key that the ingester
computes. -/
def Call.Reingests (call : Call) (s : World) (c : String) (x : ClusterId) : Prop :=
  ∃ i now submission localId, call.op = .ingest i now submission ∧ submission.delete = false ∧
    i.localId submission = .ok localId ∧ c ∈ i.matchKeys ∧
    (∃ outcome, (({ i with access := call.access } : Ingester).ingest now submission).go s
      = (.ok outcome, call.perform s)) ∧
    ∃ row ∈ (call.perform s).tables.records, row.key = i.key localId ∧
      ∃ r, row.id = .intact r ∧ (call.perform s).tables.Holds c x r

theorem Tables.Renewed.dated (h : Renewed now t t' c x) : ∃ m' ∈ t'.marks, m'.cluster = x ∧
    m'.config = c ∧ ((∀ m ∈ t.marks, m.cluster ≠ x) ∨ ∃ m ∈ t.marks, m.cluster = x ∧
      (m.datestamp < Datestamp.limit → max (m.datestamp + 1) now ≤ m'.datestamp)) := by
  obtain ⟨m', hm', hx, hc, -, hold⟩ := h
  refine ⟨m', hm', hx, hc, ?_⟩
  by_cases hnew : ∃ m ∈ t.marks, m.cluster = x
  · obtain ⟨m, hm, hmx⟩ := hnew
    exact Or.inr ⟨m, hm, hmx, fun hlt ↦
      (Datestamp.max_succ_le_advance hlt now).trans (hold m hm hmx)⟩
  · exact Or.inl fun m hm hmx ↦ hnew ⟨m, hm, hmx⟩

/-- **Every change advances the datestamp.** Whatever the engine has done before, an operation that
reads the clock keeps all marks and takes no datestamp back; and a cluster that has other members or
values afterwards, or that holds the record which was stored again, is new, or has a datestamp of at
least the time that was read and at least one more than before, if the old one was a 64-bit
number. -/
theorem changes_advance_datestamps (h : Reachable s) (call : Call) (hop : call.op.IsEngine)
    (hreading : call.op.reading? = some now) (hnow : now < Datestamp.limit) :
    (∀ m ∈ s.tables.marks, ∃ m' ∈ (call.perform s).tables.marks, m'.cluster = m.cluster ∧
      m'.config = m.config ∧ m.datestamp ≤ m'.datestamp) ∧
    ∀ c x, Differs s.tables (call.perform s).tables c x ∨ call.Reingests s c x →
      ∃ m' ∈ (call.perform s).tables.marks, m'.cluster = x ∧ m'.config = c ∧
        ((∀ m ∈ s.tables.marks, m.cluster ≠ x) ∨ ∃ m ∈ s.tables.marks, m.cluster = x ∧
          (m.datestamp < Datestamp.limit → max (m.datestamp + 1) now ≤ m'.datestamp)) := by
  have hs := h.sound
  have hadvances : Advances now s (call.perform s) :=
    respects_advances hop hreading hnow call.access s
  obtain ⟨-, hp, -⟩ := hadvances.2 hs
  refine ⟨hp.kept, fun c x hchange ↦ ?_⟩
  rcases hchange with hd | ⟨i, now', submission, localId, hcall, hstores, hlocal, hc,
    ⟨outcome, hgo⟩, row, hrow, hkey, r, hid, hx⟩
  · exact (hp.renewed c x hd).dated
  · rw [hcall] at hreading
    obtain rfl := Option.some.inj hreading
    exact (Ingester.renewed_of_ingest hnow hs hgo hstores hlocal hrow hkey hid hc hx).dated

open Sample in
/-- The clock has been set back when the source of both records is deleted, and the cluster that
they leave is dated one later than before. -/
theorem delete_source_dates_bridge :
    ∃ m ∈ (Call.perform ⟨.free, .deleteSource library 3⟩ (run blank bridge)).tables.marks,
      m.cluster = ⟨Uuid.ofNat 2⟩ ∧ 7 ≤ m.datestamp := by
  have hstays : (⟨⟨Uuid.ofNat 0⟩, "isbn", .intact ⟨Uuid.ofNat 2⟩⟩ : MemberRow) ∈
      (run blank bridge).tables.members := by decide +kernel
  have hgone : (⟨⟨Uuid.ofNat 0⟩, "isbn", .intact ⟨Uuid.ofNat 2⟩⟩ : MemberRow) ∉
      (Call.perform ⟨.free, .deleteSource library 3⟩ (run blank bridge)).tables.members := by
    decide +kernel
  have hmark : ∀ m ∈ (run blank bridge).tables.marks, m.cluster = ⟨Uuid.ofNat 2⟩ →
      m.datestamp = 6 := by decide +kernel
  have hmarked : ¬∀ m ∈ (run blank bridge).tables.marks, m.cluster ≠ ⟨Uuid.ofNat 2⟩ := by
    decide +kernel
  obtain ⟨-, hdated⟩ := changes_advance_datestamps reachable_bridge
    ⟨.free, .deleteSource library 3⟩ trivial rfl (by decide)
  obtain ⟨m', hm', hx, -, hnew | ⟨m, hm, hmx, hle⟩⟩ :=
    hdated "isbn" ⟨Uuid.ofNat 2⟩ (Or.inl (Or.inl ⟨⟨Uuid.ofNat 0⟩, fun h ↦ hgone (h.mpr hstays)⟩))
  · exact absurd hnew hmarked
  · refine ⟨m', hm', hx, ?_⟩
    rw [hmark m hm hmx] at hle
    exact (le_max_left _ _).trans (hle (by decide))

end RecordLinkage
