import RecordLinkage.Proofs.History.Runs

/-!
# Worlds in order

A world is in order when its tables are well formed and the identifiers in use were taken from the
supply: those of records, and those of clusters that are marked. What is handed out next is then
new, as long as it fits into a column. Whatever is done keeps a world in order.

A cluster that is not marked may have any identifier. Statements that write owners or members one by
one do not ask for a mark, so nothing better is true of them.
-/

namespace RecordLinkage

open Work

variable {s s' : World}

/-- Well-formed tables whose identifiers come from the supply. -/
structure World.Orderly (s : World) : Prop where
  form : s.tables.Wellformed
  mark_lt : ∀ m ∈ s.tables.marks, m.cluster.toNat < s.ids.next
  record_lt : ∀ r, s.tables.Stores r → r.toNat < s.ids.next

/-- The greatest number of identifiers that there are. -/
abbrev idLimit : Nat := 2 ^ 128

/-- A world that is in order stays in order, as long as identifiers fit into their columns. -/
def KeepsOrder (s s' : World) : Prop :=
  Grows s s' ∧ (s'.ids.next ≤ idLimit → s.Orderly → s'.Orderly)

theorem lasting_keepsOrder : Lasting KeepsOrder where
  trans h h' := ⟨h.1.trans h'.1, fun hb ho ↦ h'.2 hb (h.2 (h'.1.trans hb) ho)⟩
  idle htables hg := ⟨hg, fun _ ho ↦ {
    form := htables ▸ ho.form
    mark_lt := fun m hm ↦ (ho.mark_lt m (htables ▸ hm)).trans_le hg
    record_lt := fun r hr ↦ (ho.record_lt r (htables ▸ hr)).trans_le hg }⟩

theorem World.orderly_of_empty (h : s.tables = Tables.empty) : s.Orderly where
  form := h ▸ Tables.wellformed_empty
  mark_lt m hm := by simp [h, Tables.empty] at hm
  record_lt r hr := by simp [h, Tables.Stores, Tables.empty] at hr

namespace World.Orderly

variable (h : s.Orderly)

include h

theorem member_lt {config : String} {x : ClusterId} {r : RecordId}
    (hx : s.tables.Holds config x r) : r.toNat < s.ids.next :=
  h.record_lt r (h.form.stores_of_holds hx)

/-- No cluster is marked under the identifier that is handed out next. -/
theorem fresh_mark (hlt : s.ids.next < idLimit) :
    ∀ m ∈ s.tables.marks, m.cluster ≠ ⟨Uuid.ofNat s.ids.next⟩ := by
  intro m hm heq
  have hm' := h.mark_lt m hm
  rw [heq] at hm'
  exact absurd hm' (Nat.not_lt.mpr (Uuid.toNat_ofNat hlt).ge)

/-- No record has the identifier that is handed out next. -/
theorem fresh_record (hlt : s.ids.next < idLimit) : ¬s.tables.Stores ⟨Uuid.ofNat s.ids.next⟩ := by
  intro hr
  exact absurd (h.record_lt _ hr) (Nat.not_lt.mpr (Uuid.toNat_ofNat hlt).ge)

/-- Tables with the same marks and records, or fewer, are in order when they are well formed. -/
theorem of_tables {t : Tables} (hform : t.Wellformed)
    (hmarks : ∀ m ∈ t.marks, ∃ m₀ ∈ s.tables.marks, m.cluster = m₀.cluster)
    (hrecords : ∀ r, t.Stores r → s.tables.Stores r) :
    ({ s with tables := t } : World).Orderly where
  form := hform
  mark_lt m hm := by
    obtain ⟨m₀, hm₀, heq⟩ := hmarks m hm
    rw [heq]
    exact h.mark_lt m₀ hm₀
  record_lt r hr := h.record_lt r (hrecords r hr)

end World.Orderly

/-- A statement that marks no cluster and stores no record. -/
theorem achieves_keepsOrder_statement {α : Type} {st : Statement α}
    (h : ∀ t a t', t.Wellformed → st t = .ok (a, t') → t'.Wellformed ∧
      (∀ m ∈ t'.marks, ∃ m₀ ∈ t.marks, m.cluster = m₀.cluster) ∧
      ∀ r, t'.Stores r → t.Stores r) : Achieves KeepsOrder (Work.statement st) := by
  intro s a s' hgo
  obtain ⟨t, hst, rfl⟩ := go_statement_ok.mp hgo
  refine ⟨Nat.le_refl _, fun _ ho ↦ ?_⟩
  obtain ⟨hform, hmarks, hrecords⟩ := h _ _ _ ho.form hst
  exact ho.of_tables hform hmarks hrecords

theorem exists_cluster_of_advanced {marks : List ClusterMark} {changed : ClusterId → Bool}
    {now : Datestamp} {m : ClusterMark} (h : m ∈ marks.map (Tables.advanced changed now)) :
    ∃ m₀ ∈ marks, m.cluster = m₀.cluster := by
  obtain ⟨m₀, hm₀, rfl⟩ := List.mem_map.mp h
  exact ⟨m₀, hm₀, Tables.advanced_cluster _ _ m₀⟩

theorem Clustering.assign_keepsOrder (now : Datestamp) (r : RecordId) (config : String)
    (values : List String) : Achieves KeepsOrder (assign now r config values) := by
  intro s a s' hgo
  have hform : KeepsForm s s' := (assign_keepsForm now r config values).achieves hgo
  have hgrows : Grows s s' := (assign_grows now r config values).achieves hgo
  refine ⟨hgrows, fun hb ho ↦ ?_⟩
  have ha := assigned_of_ok ho.form hgo
  refine ⟨hform ho.form, fun m hm ↦ ?_, fun q hq ↦ ?_⟩
  · obtain ⟨changed, new, -, hnew, hmarks⟩ := ha.marks
    rw [hmarks] at hm
    rcases List.mem_append.mp hm with hm | hm
    · obtain ⟨m₀, hm₀, heq⟩ := exists_cluster_of_advanced hm
      rw [heq]
      exact (ho.mark_lt m₀ hm₀).trans_le hgrows
    · -- A cluster is marked only when it is new, with the identifier that the supply had next.
      rcases hnew with ⟨rfl, -⟩ | ⟨rfl, hno, -⟩
      · exact absurd hm List.not_mem_nil
      · obtain ⟨hcluster, hnext⟩ := ha.minted hno
        rw [List.mem_singleton.mp hm, hcluster, hnext]
        rw [hnext] at hb
        exact (Uuid.toNat_ofNat hb).trans_lt (Nat.lt_succ_self _)
  · rw [Tables.Stores, ha.records] at hq
    exact (ho.record_lt q hq).trans_le hgrows

/-- Assignments write neither records nor match keys. -/
def KeepsRecords (s s' : World) : Prop := s.tables.Wellformed → s'.tables.Wellformed ∧
  s'.tables.records = s.tables.records ∧ s'.tables.matchKeys = s.tables.matchKeys

theorem lasting_keepsRecords : Lasting KeepsRecords where
  trans h h' hform := by
    obtain ⟨hform', hr, hk⟩ := h hform
    obtain ⟨hform'', hr', hk'⟩ := h' hform'
    exact ⟨hform'', hr'.trans hr, hk'.trans hk⟩
  idle htables _ hform := ⟨htables ▸ hform, by rw [htables], by rw [htables]⟩

theorem Clustering.assign_keepsRecords (now : Datestamp) (r : RecordId) (config : String)
    (values : List String) : Achieves KeepsRecords (assign now r config values) := by
  intro s a s' hgo hform
  have hform' : KeepsForm s s' := (assign_keepsForm now r config values).achieves hgo
  have ha := assigned_of_ok hform hgo
  exact ⟨hform' hform, ha.records, ha.matchKeys⟩

namespace Ingester

theorem assignAll_keepsRecords (i : Ingester) (now : Datestamp) (r : RecordId) (payload : Json) :
    Achieves KeepsRecords (i.assignAll now r payload) :=
  achieves_assignAll lasting_keepsRecords
    (fun _ _ _ _ ↦ Clustering.assign_keepsRecords _ _ _ _) r payload

/-- What storing a record achieves: the record is there afterwards, under an identifier that it had
before or that is new. -/
theorem enroll_ok {key : RecordKey} {payload : Json} {result : RecordId × Cell RecordId}
    (hgo : (enroll key payload).go s = (.ok result, s')) : ∃ t,
      result.1 = ⟨Uuid.ofNat s.ids.next⟩ ∧ s' = { s with tables := t, ids := ⟨s.ids.next + 1⟩ } ∧
        Tables.storeRecord ⟨Uuid.ofNat s.ids.next⟩ key payload s.tables = .ok (result.2, t) := by
  obtain ⟨id, s₁, hmint, hgo⟩ := go_bind_ok.mp hgo
  rw [go_mint] at hmint
  obtain ⟨hid, rfl⟩ := Prod.mk.inj hmint
  obtain rfl := Except.ok.inj hid
  obtain ⟨cell, s₂, hstore, hgo⟩ := go_bind_ok.mp hgo
  obtain ⟨hresult, rfl⟩ := Prod.mk.inj hgo
  obtain rfl := Except.ok.inj hresult
  obtain ⟨t, hst, rfl⟩ := go_statement_ok.mp hstore
  exact ⟨t, rfl, rfl, hst⟩

theorem storeRecord_frame {candidate : RecordId} {key : RecordKey} {payload : Json}
    {cell : Cell RecordId} {t t' : Tables}
    (hok : Tables.storeRecord candidate key payload t = .ok (cell, t')) :
    t'.marks = t.marks ∧ t'.owners = t.owners ∧ t'.members = t.members ∧
      t'.matchKeys = t.matchKeys := by
  rcases Tables.storeRecord_ok_iff.mp hok with ⟨row, -, -, rfl⟩ | ⟨-, -, -, rfl⟩ <;>
    exact ⟨rfl, rfl, rfl, rfl⟩

theorem enroll_keepsOrder (key : RecordKey) (payload : Json) :
    Achieves KeepsOrder (enroll key payload) := by
  rintro s result s' hgo
  obtain ⟨t, -, rfl, hst⟩ := enroll_ok hgo
  refine ⟨Nat.le_succ _, fun hb ho ↦ ?_⟩
  obtain ⟨hmarks, -, -, -⟩ := storeRecord_frame hst
  refine ⟨ho.form.storeRecord hst, fun m hm ↦ ?_, fun r hr ↦ ?_⟩
  · exact Nat.lt_succ_of_lt (ho.mark_lt m (hmarks ▸ hm))
  · rcases (Tables.stores_storeRecord hst).mp hr with hr | hr
    · exact Nat.lt_succ_of_lt (ho.record_lt r hr)
    · rcases Tables.storeRecord_ok_iff.mp hst with ⟨row, hrow, hcell, -⟩ | ⟨-, -, hcell, -⟩
      · have hold : s.tables.Stores r :=
          ⟨row, List.mem_of_find?_eq_some hrow, hcell.symm.trans hr⟩
        exact Nat.lt_succ_of_lt (ho.record_lt r hold)
      · obtain rfl := Cell.intact.inj (hcell.symm.trans hr)
        exact (Uuid.toNat_ofNat hb).trans_lt (Nat.lt_succ_self _)

end Ingester

theorem Tables.exists_cluster_of_deleteRecords {t : Tables} {fits : RecordRow → Bool}
    {now : Datestamp} {m : ClusterMark} (h : m ∈ (t.deleteRecords fits now).2.marks) :
    ∃ m₀ ∈ t.marks, m.cluster = m₀.cluster :=
  exists_cluster_of_advanced h

theorem Tables.stores_of_deleteRecords {t : Tables} {fits : RecordRow → Bool} {now : Datestamp}
    {r : RecordId} (h : (t.deleteRecords fits now).2.Stores r) : t.Stores r := by
  obtain ⟨row, hrow, hid, -⟩ := Tables.stores_deleteRecords.mp h
  exact ⟨row, hrow, hid⟩

theorem World.Orderly.deleteRecords (h : s.Orderly) (fits : RecordRow → Bool) (now : Datestamp) :
    ({ s with tables := (s.tables.deleteRecords fits now).2 } : World).Orderly :=
  h.of_tables (h.form.deleteRecords fits now) (fun _ ↦ Tables.exists_cluster_of_deleteRecords)
    fun _ ↦ Tables.stores_of_deleteRecords

theorem deleteRecords_keepsOrder {α : Type} {f : Tables → α × Tables} (fits : RecordRow → Bool)
    (now : Datestamp) (hf : ∀ t, (f t).2 = (t.deleteRecords fits now).2) :
    Achieves KeepsOrder (update f) := by
  refine achieves_keepsOrder_statement fun t a t' hform hst ↦ ?_
  obtain rfl : (f t).2 = t' := (Prod.mk.inj (Except.ok.inj hst)).2
  rw [hf]
  exact ⟨hform.deleteRecords fits now, fun m ↦ Tables.exists_cluster_of_deleteRecords,
    fun r ↦ Tables.stores_of_deleteRecords⟩

end RecordLinkage
