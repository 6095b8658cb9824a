import RecordLinkage.Proofs.Clustering.Partition
import RecordLinkage.Proofs.History.Operation

/-!
# What leaves a match key alone

An operation that does not write the owners and members of a match key spares it: the partition
stays, except that deleted records leave their clusters. This is checked statement by statement, and
carried over to operations of any length.
-/

namespace RecordLinkage

open Clustering Work Tables

variable {config : String} {s s' : World} {α : Type}

/-- The world stays in order and the match key is spared. -/
def Apart (config : String) (s s' : World) : Prop :=
  Grows s s' ∧ (s'.ids.next ≤ idLimit → s.Orderly → s'.Orderly ∧ Spares config s s')

theorem Clustering.Spares.trans {s'' : World} (ho : s.Orderly) (h : Spares config s s')
    (h' : Spares config s' s'') : Spares config s s'' where
  ids_le := h.ids_le.trans h'.ids_le
  owns x v := (h'.owns x v).trans (h.owns x v)
  holds x q := by
    rw [h'.holds, h.holds]
    constructor
    · exact fun ⟨⟨hx, _⟩, hq⟩ ↦ ⟨hx, hq⟩
    · rintro ⟨hx, hq⟩
      -- A member is no new record, so it has been there all the time.
      have hold : ¬s'.ids.next ≤ q.toNat := by
        have := (ho.member_lt hx).trans_le h.ids_le
        omega
      exact ⟨⟨hx, (h'.stores q hq).resolve_right hold⟩, hq⟩
  stores q hq := by
    rcases h'.stores q hq with hq | hq
    · exact h.stores q hq
    · exact Or.inr (h.ids_le.trans hq)

/-- Where records stay, a match key is spared when its owners and members do. -/
theorem Clustering.Spares.of_records (ho : s.Orderly) (hids : Grows s s')
    (hrecords : s'.tables.records = s.tables.records)
    (howns : ∀ x v, s'.tables.Owns config x v ↔ s.tables.Owns config x v)
    (hholds : ∀ x q, s'.tables.Holds config x q ↔ s.tables.Holds config x q) :
    Spares config s s' where
  ids_le := hids
  owns := howns
  holds x q := by
    rw [hholds, Stores, hrecords]
    exact ⟨fun hx ↦ ⟨hx, ho.form.stores_of_holds hx⟩, And.left⟩
  stores q hq := by
    rw [Stores, hrecords] at hq
    exact Or.inl hq

theorem lasting_apart (config : String) : Lasting (Apart config) where
  trans h h' := by
    refine ⟨h.1.trans h'.1, fun hb ho ↦ ?_⟩
    obtain ⟨ho', hs⟩ := h.2 (h'.1.trans hb) ho
    obtain ⟨ho'', hs'⟩ := h'.2 hb ho'
    exact ⟨ho'', hs.trans ho hs'⟩
  idle htables hg := by
    refine ⟨hg, fun hb ho ↦ ⟨(lasting_keepsOrder.idle htables hg).2 hb ho, ?_⟩⟩
    refine .of_records ho hg (by rw [htables]) (fun x v ↦ ?_) fun x q ↦ ?_
    · rw [htables]
    · rw [htables]

theorem achieves_apart {w : Work α} (hw : Achieves KeepsOrder w)
    (h : ∀ {s a s'}, w.go s = (.ok a, s') → s'.ids.next ≤ idLimit → s.Orderly →
      Spares config s s') : Achieves (Apart config) w := by
  intro s a s' hgo
  obtain ⟨hg, ho'⟩ := hw hgo
  exact ⟨hg, fun hb ho ↦ ⟨ho' hb ho, h hgo hb ho⟩⟩

/-! ## Statements -/

/-- A statement that writes neither records nor what belongs to the match key. -/
theorem achieves_apart_statement {st : Statement α}
    (h : ∀ {t a t'}, t.Wellformed → st t = .ok (a, t') → t'.Wellformed ∧
      (∀ m ∈ t'.marks, ∃ m₀ ∈ t.marks, m.cluster = m₀.cluster) ∧ t'.records = t.records ∧
      (∀ x v, t'.Owns config x v ↔ t.Owns config x v) ∧
      ∀ x q, t'.Holds config x q ↔ t.Holds config x q) :
    Achieves (Apart config) (Work.statement st) := by
  refine achieves_apart (achieves_keepsOrder_statement fun t a t' hform hst ↦ ?_) ?_
  · obtain ⟨hform', hmarks, hrecords, -⟩ := h hform hst
    refine ⟨hform', hmarks, fun r hr ↦ ?_⟩
    rwa [Stores, hrecords] at hr
  · intro s a s' hgo _ ho
    obtain ⟨t, hst, rfl⟩ := go_statement_ok.mp hgo
    obtain ⟨-, -, hrecords, howns, hholds⟩ := h ho.form hst
    exact .of_records ho (Nat.le_refl _) hrecords howns hholds

/-- The same of a statement that cannot fail. -/
theorem achieves_apart_update {f : Tables → α × Tables}
    (h : ∀ {t}, t.Wellformed → (f t).2.Wellformed ∧
      (∀ m ∈ (f t).2.marks, ∃ m₀ ∈ t.marks, m.cluster = m₀.cluster) ∧
      (f t).2.records = t.records ∧
      (∀ x v, (f t).2.Owns config x v ↔ t.Owns config x v) ∧
      ∀ x q, (f t).2.Holds config x q ↔ t.Holds config x q) :
    Achieves (Apart config) (update f) := by
  refine achieves_apart_statement fun {t a t'} hform hst ↦ ?_
  obtain rfl : (f t).2 = t' := (Prod.mk.inj (Except.ok.inj hst)).2
  exact h hform

private theorem mark_self {t : Tables} : ∀ m ∈ t.marks, ∃ m₀ ∈ t.marks, m.cluster = m₀.cluster :=
  fun m hm ↦ ⟨m, hm, rfl⟩

theorem insertMatchKey_apart (k : MatchKey) :
    Achieves (Apart config) (statement (Tables.insertMatchKey k)) := by
  refine achieves_apart_statement fun {t a t'} hform hst ↦ ?_
  have hform' := hform.insertMatchKey hst
  obtain ⟨-, rfl⟩ := insertMatchKey_ok_iff.mp hst
  exact ⟨hform', mark_self, rfl, fun _ _ ↦ Iff.rfl, fun _ _ ↦ Iff.rfl⟩

theorem updateMatchKey_apart (k : MatchKey) :
    Achieves (Apart config) (update (·.updateMatchKey k)) :=
  achieves_apart_update fun hform ↦
    ⟨hform.updateMatchKey k, mark_self, rfl, fun _ _ ↦ Iff.rfl, fun _ _ ↦ Iff.rfl⟩

theorem owns_clear {t : Tables} {c : String} (hc : c ≠ config) (x : ClusterId) (v : String) :
    (t.clear c).Owns config x v ↔ t.Owns config x v := by
  simp only [Owns, Tables.clear, List.mem_filter, decide_eq_true_eq, hc.symm, ne_eq,
    not_false_eq_true, and_true]

theorem holds_clear {t : Tables} {c : String} (hc : c ≠ config) (x : ClusterId) (q : RecordId) :
    (t.clear c).Holds config x q ↔ t.Holds config x q := by
  simp only [Holds, Tables.clear, List.mem_filter, decide_eq_true_eq, hc.symm, ne_eq,
    not_false_eq_true, and_true]

private theorem mark_of_clear {t : Tables} {c : String} :
    ∀ m ∈ (t.clear c).marks, ∃ m₀ ∈ t.marks, m.cluster = m₀.cluster :=
  fun m hm ↦ ⟨m, List.mem_of_mem_filter hm, rfl⟩

theorem clear_apart {c : String} (hc : c ≠ config) :
    Achieves (Apart config) (change (·.clear c)) := by
  have hupdate : Achieves (Apart config) (update fun t ↦ ((), t.clear c)) :=
    achieves_apart_update fun hform ↦
      ⟨hform.clear c, mark_of_clear, rfl, owns_clear hc, holds_clear hc⟩
  exact hupdate

theorem deleteMatchKey_apart {c : String} (hc : c ≠ config) :
    Achieves (Apart config) (update (·.deleteMatchKey c)) :=
  achieves_apart_update fun hform ↦
    ⟨hform.deleteMatchKey c, mark_of_clear, rfl, owns_clear hc, holds_clear hc⟩

theorem advance_apart (clusters : List ClusterId) (now : Datestamp) :
    Achieves (Apart config) (change (·.advance clusters now)) := by
  have hupdate : Achieves (Apart config) (update fun t ↦ ((), t.advance clusters now)) :=
    achieves_apart_update fun hform ↦ ⟨hform.advanceWhere _ now,
      fun m ↦ exists_cluster_of_advanced, rfl, fun _ _ ↦ Iff.rfl, fun _ _ ↦ Iff.rfl⟩
  exact hupdate

theorem merge_apart {c : String} (hc : c ≠ config) (winner : ClusterId) (losers : List ClusterId) :
    Achieves (Apart config) (change (·.merge c winner losers)) := by
  have hupdate : Achieves (Apart config) (update fun t ↦ ((), t.merge c winner losers)) := by
    refine achieves_apart_update fun hform ↦
      ⟨hform.merge c winner losers, mark_self, rfl, fun x v ↦ ?_, fun x q ↦ ?_⟩
    · rw [owns_merge]
      simp only [hc.symm, false_and, if_false, exists_eq_right']
    · rw [holds_merge]
      simp only [hc.symm, false_and, if_false, exists_eq_right']
  exact hupdate

theorem insertValue_apart {c : String} (hc : c ≠ config) (cluster : ClusterId) (value : String) :
    Achieves (Apart config) (statement (Tables.insertValue c cluster value)) := by
  refine achieves_apart_statement fun {t a t'} hform hst ↦ ?_
  have hform' := hform.insertValue hst
  obtain ⟨-, -, rfl⟩ := insertValue_ok_iff.mp hst
  refine ⟨hform', mark_self, rfl, fun x v ↦ ?_, fun _ _ ↦ Iff.rfl⟩
  simp only [Owns, List.mem_append, List.mem_singleton, OwnerRow.mk.injEq, hc.symm, false_and,
    or_false]

theorem setMember_apart {c : String} (hc : c ≠ config) (r : RecordId) (cluster : ClusterId) :
    Achieves (Apart config) (statement (Tables.setMember r c cluster)) := by
  refine achieves_apart_statement fun {t a t'} hform hst ↦ ?_
  have hholds : ∀ x q, t'.Holds config x q ↔ t.Holds config x q := by
    intro x q
    rw [holds_setMember hst, if_neg fun h ↦ hc h.2.symm]
  have hframe : t'.marks = t.marks ∧ t'.records = t.records ∧ t'.owners = t.owners := by
    rcases setMember_ok_iff.mp hst with ⟨-, rfl⟩ | ⟨-, -, -, rfl⟩ <;> exact ⟨rfl, rfl, rfl⟩
  obtain ⟨hmarks, hrecords, howners⟩ := hframe
  refine ⟨hform.setMember hst, hmarks ▸ mark_self, hrecords, fun x v ↦ ?_, hholds⟩
  rw [Owns, howners, Owns]

/-! ## Records and assignments -/

theorem deleteRecords_spares (ho : s.Orderly) (fits : RecordRow → Bool) (now : Datestamp) :
    Spares config s { s with tables := (s.tables.deleteRecords fits now).2 } where
  ids_le := Nat.le_refl _
  owns _ _ := Iff.rfl
  holds _ _ := ho.form.holds_deleteRecords
  stores _ hq := Or.inl (stores_of_deleteRecords hq)

theorem deleteRecords_apart {f : Tables → α × Tables} (fits : RecordRow → Bool) (now : Datestamp)
    (hf : ∀ t, (f t).2 = (t.deleteRecords fits now).2) : Achieves (Apart config) (update f) := by
  refine achieves_apart (deleteRecords_keepsOrder fits now hf) fun {s a s'} hgo _ ho ↦ ?_
  obtain ⟨t, hst, rfl⟩ := go_statement_ok.mp hgo
  obtain rfl : (f s.tables).2 = t := (Prod.mk.inj (Except.ok.inj hst)).2
  rw [hf]
  exact deleteRecords_spares ho fits now

/-- A record that is stored under a key was there before, or is new. -/
theorem stores_of_enroll {key : RecordKey} {payload : Json} {result : RecordId × Cell RecordId}
    {q : RecordId} (hgo : (Ingester.enroll key payload).go s = (.ok result, s'))
    (hb : s'.ids.next ≤ idLimit) (hq : s'.tables.Stores q) :
    s.tables.Stores q ∨ s.ids.next ≤ q.toNat := by
  obtain ⟨t, -, rfl, hst⟩ := Ingester.enroll_ok hgo
  rcases (stores_storeRecord hst).mp hq with hq | hq
  · exact Or.inl hq
  · rcases storeRecord_ok_iff.mp hst with ⟨row, hrow, hcell, -⟩ | ⟨-, -, hcell, -⟩
    · exact Or.inl ⟨row, List.mem_of_find?_eq_some hrow, hcell.symm.trans hq⟩
    · obtain rfl := Cell.intact.inj (hcell.symm.trans hq)
      exact Or.inr (Uuid.toNat_ofNat hb).ge

theorem enroll_spares {key : RecordKey} {payload : Json} {result : RecordId × Cell RecordId}
    (hgo : (Ingester.enroll key payload).go s = (.ok result, s')) (hb : s'.ids.next ≤ idLimit)
    (ho : s.Orderly) : Spares config s s' := by
  refine ⟨(Ingester.enroll_grows key payload).achieves hgo, fun x v ↦ ?_, fun x q ↦ ?_,
    fun q ↦ stores_of_enroll hgo hb⟩
  · obtain ⟨t, -, rfl, hst⟩ := Ingester.enroll_ok hgo
    rw [Owns, (Ingester.storeRecord_frame hst).2.1, Owns]
  · obtain ⟨t, -, rfl, hst⟩ := Ingester.enroll_ok hgo
    rw [Holds, (Ingester.storeRecord_frame hst).2.2.1, stores_storeRecord hst]
    exact ⟨fun hx ↦ ⟨hx, Or.inl (ho.form.stores_of_holds hx)⟩, And.left⟩

theorem enroll_apart (key : RecordKey) (payload : Json) :
    Achieves (Apart config) (Ingester.enroll key payload) :=
  achieves_apart (Ingester.enroll_keepsOrder key payload) enroll_spares

theorem assign_apart {c : String} (hc : c ≠ config) (now : Datestamp) (r : RecordId)
    (values : List String) : Achieves (Apart config) (Clustering.assign now r c values) := by
  refine achieves_apart (assign_keepsOrder now r c values) fun hgo _ ho ↦ ?_
  have ha := assigned_of_ok ho.form hgo
  exact .of_records ho ha.ids_le ha.records (fun x v ↦ ha.owns_other config x v hc.symm)
    fun x q ↦ ha.holds_other config x q hc.symm

theorem start_apart {c : String} (now : Datestamp) :
    Achieves (Apart config) (Clustering.start now c) := by
  have hstart : ∀ {s a s'}, (Clustering.start now c).go s = (.ok a, s') → ∃ u t,
      createMark ⟨Uuid.ofNat s.ids.next⟩ c now s.tables = .ok (u, t) ∧
        s' = { s with tables := t, ids := ⟨s.ids.next + 1⟩ } := by
    intro s a s' hgo
    obtain ⟨id, s₁, hmint, hgo⟩ := go_bind_ok.mp hgo
    rw [go_mint] at hmint
    obtain ⟨hid, rfl⟩ := Prod.mk.inj hmint
    obtain rfl := Except.ok.inj hid
    obtain ⟨u, s₂, hcreate, hgo⟩ := go_bind_ok.mp hgo
    obtain rfl := (Prod.mk.inj hgo).2
    obtain ⟨t, hst, rfl⟩ := go_statement_ok.mp hcreate
    exact ⟨u, t, hst, rfl⟩
  refine achieves_apart (fun s a s' hgo ↦ ?_) fun {s a s'} hgo _ ho ↦ ?_
  · obtain ⟨u, t, hst, rfl⟩ := hstart hgo
    refine ⟨Nat.le_succ _, fun hb ho ↦ ⟨ho.form.createMark hst, fun m hm ↦ ?_, fun r hr ↦ ?_⟩⟩
    · obtain ⟨-, -, rfl⟩ := createMark_ok_iff.mp hst
      rcases List.mem_append.mp hm with hm | hm
      · exact Nat.lt_succ_of_lt (ho.mark_lt m hm)
      · rw [List.mem_singleton.mp hm]
        exact (Uuid.toNat_ofNat hb).trans_lt (Nat.lt_succ_self _)
    · obtain ⟨-, -, rfl⟩ := createMark_ok_iff.mp hst
      exact Nat.lt_succ_of_lt (ho.record_lt r hr)
  · obtain ⟨u, t, hst, rfl⟩ := hstart hgo
    obtain ⟨-, -, rfl⟩ := createMark_ok_iff.mp hst
    exact .of_records ho (Nat.le_succ _) rfl (fun _ _ ↦ Iff.rfl) fun _ _ ↦ Iff.rfl

/-! ## Operations -/

open Operation

private theorem start_grows (now : Datestamp) (c : String) :
    Respects Grows (Clustering.start now c) :=
  .bind Lasting.grows (.mint Lasting.grows) fun _ ↦
    .bind Lasting.grows (grows_statement _) fun _ ↦ .pure Lasting.grows _

/-- **An operation that avoids a match key spares it**, whether it succeeds or not. -/
theorem respects_apart {op : Operation} (hop : op.Avoids config) (access : Access) :
    Respects (Apart config) (op.work access) := by
  have hL := lasting_apart config
  cases op with
  | insertMatchKey k => exact (insertMatchKey_apart k).transaction hL (grows_statement _) access
  | updateMatchKey k =>
    exact respects_transaction_quietly hL (updateMatchKey_apart k) (grows_statement _) access
  | deleteMatchKey id =>
    exact respects_transaction_quietly hL (deleteMatchKey_apart hop) (grows_statement _) access
  | clear c => exact (clear_apart hop).transaction hL (grows_change _) access
  | storeRecord key payload =>
    exact respects_transaction_quietly hL (enroll_apart key payload)
      (Ingester.enroll_grows key payload) access
  | deleteRecord | deleteSource | assign | rebuild | ingest =>
    -- What they do not avoid is another match key.
    refine respects_timed hL (by trivial) (by rfl) (fun c hc r values ↦ ?_) enroll_apart
      (fun fits ↦ deleteRecords_apart fits _) access
    refine assign_apart ?_ _ r values
    rintro rfl
    exact hc hop
  | start now c =>
    exact respects_transaction_quietly hL (start_apart now) (start_grows now c) access
  | advance clusters now =>
    exact (advance_apart clusters now).transaction hL (grows_change _) access
  | merge c winner losers =>
    exact (merge_apart hop winner losers).transaction hL (grows_change _) access
  | insertValue c cluster value =>
    exact (insertValue_apart hop cluster value).transaction hL (grows_statement _) access
  | setMember r c cluster =>
    exact (setMember_apart hop r cluster).transaction hL (grows_statement _) access

end RecordLinkage
