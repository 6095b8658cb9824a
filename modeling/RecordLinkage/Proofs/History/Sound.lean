import RecordLinkage.Proofs.History.Operation

/-!
# Worlds that the engine leads to

Nothing in the schema ties the values and members of a cluster to its mark. The engine keeps them
together: a cluster that owns a value or holds a record is marked, and the mark belongs to the same
match key. So every identifier of a cluster comes from the supply, and no cluster serves two match
keys.

A datestamp may reach the first number that cannot be read any more, and no further.
-/

namespace RecordLinkage

open Clustering Work Tables

variable {s s' : World} {now : Datestamp}

/-! ## Datestamps -/

namespace Datestamp

theorem le_advance_now (stamp now : Datestamp) : now ≤ stamp.advance now := le_max_right _ _

theorem le_advance {stamp : Datestamp} (h : stamp ≤ limit) (now : Datestamp) :
    stamp ≤ stamp.advance now := by
  exact le_max_of_le_left (le_min (Int.le_of_lt (Int.lt_succ stamp)) h)

theorem advance_mono {a b : Datestamp} (h : a ≤ b) (now : Datestamp) :
    a.advance now ≤ b.advance now := by
  exact max_le_max (min_le_min (Int.add_le_add_right h 1) le_rfl) le_rfl

theorem advance_le_limit (stamp : Datestamp) {now : Datestamp} (h : now < limit) :
    stamp.advance now ≤ limit :=
  max_le (min_le_right _ _) h.le

/-- A datestamp that can be read grows by one at least. -/
theorem max_succ_le_advance {stamp : Datestamp} (h : stamp < limit) (now : Datestamp) :
    max (stamp + 1) now ≤ stamp.advance now := by
  have hmin : min (stamp + 1) limit = stamp + 1 := min_eq_left h
  rw [advance, hmin]

end Datestamp

/-! ## Marks -/

namespace Tables

/-- A cluster is marked, for a match key. -/
def Marked (t : Tables) (config : String) (x : ClusterId) : Prop :=
  ∃ m ∈ t.marks, m.cluster = x ∧ m.config = config

theorem marked_advanceWhere {t : Tables} {config : String} {x : ClusterId}
    {changed : ClusterId → Bool} :
    (t.advanceWhere changed now).Marked config x ↔ t.Marked config x := by
  rw [Marked, advanceWhere_marks]
  constructor
  · rintro ⟨m', hm', hx, hc⟩
    obtain ⟨m, hm, rfl⟩ := List.mem_map.mp hm'
    rw [advanced_cluster] at hx
    rw [advanced_config] at hc
    exact ⟨m, hm, hx, hc⟩
  · rintro ⟨m, hm, hx, hc⟩
    exact ⟨_, List.mem_map_of_mem hm, (advanced_cluster ..).trans hx, (advanced_config ..).trans hc⟩

theorem datestamp_advanced_le {changed : ClusterId → Bool} {m : ClusterMark}
    (h : m.datestamp ≤ Datestamp.limit) (hnow : now < Datestamp.limit) :
    (advanced changed now m).datestamp ≤ Datestamp.limit := by
  rw [advanced]
  split_ifs
  · exact Datestamp.advance_le_limit _ hnow
  · exact h

end Tables

namespace Clustering.Assigned

variable {r : RecordId} {config c : String} {values : List String} {a : Assignment}
  {x : ClusterId}

/-- Marks stay, and the winner is marked. -/
theorem marked (ha : Assigned now r config values a s s') (h : s.tables.Marked c x) :
    s'.tables.Marked c x := by
  obtain ⟨m, hm, hx, hc⟩ := h
  obtain ⟨changed, new, -, -, hmarks⟩ := ha.marks
  refine ⟨advanced changed now m, ?_, (advanced_cluster ..).trans hx, (advanced_config ..).trans hc⟩
  rw [hmarks]
  exact List.mem_append_left _ (List.mem_map_of_mem hm)

theorem marked_winner (ha : Assigned now r config values a s s')
    (h : ∀ x v, s.tables.Owns config x v → s.tables.Marked config x) :
    s'.tables.Marked config a.cluster := by
  obtain ⟨changed, new, -, hnew, hmarks⟩ := id ha.marks
  rcases hnew with ⟨-, v, -, hv⟩ | ⟨rfl, -, -⟩
  · exact ha.marked (h _ v hv)
  · refine ⟨⟨a.cluster, config, now⟩, ?_, rfl, rfl⟩
    rw [hmarks]
    exact List.mem_append_right _ (List.mem_singleton_self _)

end Clustering.Assigned

/-! ## Soundness -/

/-- The tables are well formed, and owners and members belong to marks. -/
structure Tables.Sound (t : Tables) : Prop where
  form : t.Wellformed
  owner_marked : ∀ c x v, t.Owns c x v → t.Marked c x
  member_marked : ∀ c x q, t.Holds c x q → t.Marked c x
  stamp_le : ∀ m ∈ t.marks, m.datestamp ≤ Datestamp.limit

namespace Tables.Sound

theorem empty : Tables.empty.Sound where
  form := wellformed_empty
  owner_marked c x v hx := by simp [Owns, Tables.empty] at hx
  member_marked c x q hx := by simp [Holds, Tables.empty] at hx
  stamp_le m hm := by simp [Tables.empty] at hm

variable {t t' : Tables}

theorem config_unique (h : t.Sound) {c c' : String} {x : ClusterId} (hx : t.Marked c x)
    (hx' : t.Marked c' x) : c = c' := by
  obtain ⟨m, hm, hmx, rfl⟩ := hx
  obtain ⟨m', hm', hmx', rfl⟩ := hx'
  rw [List.inj_on_of_nodup_map h.form.mark_nodup hm hm' (hmx.trans hmx'.symm)]

/-- A step that keeps owners, members and marks. -/
theorem of_frame (h : t.Sound) (hform : t'.Wellformed) (hmarks : t'.marks = t.marks)
    (howners : t'.owners = t.owners) (hmembers : t'.members = t.members) : t'.Sound where
  form := hform
  owner_marked c x v hx := by
    rw [Owns, howners] at hx
    rw [Marked, hmarks]
    exact h.owner_marked c x v hx
  member_marked c x q hx := by
    rw [Holds, hmembers] at hx
    rw [Marked, hmarks]
    exact h.member_marked c x q hx
  stamp_le m hm := h.stamp_le m (hmarks ▸ hm)

theorem assigned (h : s.tables.Sound) {r : RecordId} {config : String} {values : List String}
    {a : Assignment} (hnow : now < Datestamp.limit) (ha : Assigned now r config values a s s')
    (hform : s'.tables.Wellformed) : s'.tables.Sound where
  form := hform
  owner_marked c x v hx := by
    by_cases hc : c = config
    · subst hc
      rcases (ha.owns x v).mp hx with ⟨rfl, -⟩ | ⟨y, hy, ⟨-, rfl⟩ | ⟨-, rfl⟩⟩
      · exact ha.marked_winner (h.owner_marked c)
      · exact ha.marked_winner (h.owner_marked c)
      · exact ha.marked (h.owner_marked c x v hy)
    · exact ha.marked (h.owner_marked c x v ((ha.owns_other c x v hc).mp hx))
  member_marked c x q hx := by
    by_cases hc : c = config
    · subst hc
      rcases (ha.holds x q).mp hx with ⟨-, rfl⟩ | ⟨-, y, hy, ⟨-, rfl⟩ | ⟨-, rfl⟩⟩
      · exact ha.marked_winner (h.owner_marked c)
      · exact ha.marked_winner (h.owner_marked c)
      · exact ha.marked (h.member_marked c x q hy)
    · exact ha.marked (h.member_marked c x q ((ha.holds_other c x q hc).mp hx))
  stamp_le m hm := by
    obtain ⟨changed, new, -, hnew, hmarks⟩ := ha.marks
    rw [hmarks] at hm
    rcases List.mem_append.mp hm with hm | hm
    · obtain ⟨m₀, hm₀, rfl⟩ := List.mem_map.mp hm
      exact datestamp_advanced_le (h.stamp_le m₀ hm₀) hnow
    · rcases hnew with ⟨rfl, -⟩ | ⟨rfl, -, -⟩
      · exact absurd hm List.not_mem_nil
      · rw [List.mem_singleton.mp hm]
        exact hnow.le

theorem deleteRecords (h : t.Sound) (fits : RecordRow → Bool) (hnow : now < Datestamp.limit) :
    (t.deleteRecords fits now).2.Sound where
  form := h.form.deleteRecords fits now
  owner_marked c x v hx := marked_advanceWhere.mpr (h.owner_marked c x v hx)
  member_marked c x q hx :=
    marked_advanceWhere.mpr (h.member_marked c x q (h.form.holds_deleteRecords.mp hx).1)
  stamp_le m hm := by
    obtain ⟨m₀, hm₀, rfl⟩ := List.mem_map.mp hm
    exact datestamp_advanced_le (h.stamp_le m₀ hm₀) hnow

/-- What belongs to a match key goes all at once. -/
theorem clear (h : t.Sound) {config : String} (hform : t'.Wellformed)
    (hmarks : t'.marks = (t.clear config).marks) (howners : t'.owners = (t.clear config).owners)
    (hmembers : t'.members = (t.clear config).members) : t'.Sound where
  form := hform
  owner_marked c x v hx := by
    have hx' : (⟨c, v, .intact x⟩ : OwnerRow) ∈ (t.clear config).owners := howners ▸ hx
    obtain ⟨hx', hc⟩ := List.mem_filter.mp hx'
    obtain ⟨m, hm, hmx, hmc⟩ := h.owner_marked c x v hx'
    refine ⟨m, hmarks ▸ List.mem_filter.mpr ⟨hm, ?_⟩, hmx, hmc⟩
    rw [hmc]
    exact hc
  member_marked c x q hx := by
    have hx' : (⟨q, c, .intact x⟩ : MemberRow) ∈ (t.clear config).members := hmembers ▸ hx
    obtain ⟨hx', hc⟩ := List.mem_filter.mp hx'
    obtain ⟨m, hm, hmx, hmc⟩ := h.member_marked c x q hx'
    refine ⟨m, hmarks ▸ List.mem_filter.mpr ⟨hm, ?_⟩, hmx, hmc⟩
    rw [hmc]
    exact hc
  stamp_le m hm := h.stamp_le m (List.mem_of_mem_filter (hmarks ▸ hm))

end Tables.Sound

/-! ## What keeps tables sound -/

/-- Sound tables stay sound, and the world stays in order. -/
def KeepsSound (s s' : World) : Prop :=
  KeepsOrder s s' ∧ (s.tables.Sound → s'.tables.Sound)

theorem lasting_keepsSound : Lasting KeepsSound where
  trans h h' := ⟨lasting_keepsOrder.trans h.1 h'.1, h'.2 ∘ h.2⟩
  idle htables hg := ⟨lasting_keepsOrder.idle htables hg, fun hs ↦ htables ▸ hs⟩

theorem achieves_keepsSound {α : Type} {w : Work α} (hw : Achieves KeepsOrder w)
    (h : ∀ {s a s'}, w.go s = (.ok a, s') → s.tables.Sound → s'.tables.Sound) :
    Achieves KeepsSound w :=
  fun _ _ _ hgo ↦ ⟨hw hgo, h hgo⟩

theorem assign_keepsSound (hnow : now < Datestamp.limit) (r : RecordId) (config : String)
    (values : List String) : Achieves KeepsSound (Clustering.assign now r config values) := by
  refine achieves_keepsSound (assign_keepsOrder now r config values) fun hgo hs ↦ ?_
  have hform := (assign_keepsForm now r config values).achieves hgo
  exact hs.assigned hnow (assigned_of_ok hs.form hgo) (hform hs.form)

theorem enroll_keepsSound (key : RecordKey) (payload : Json) :
    Achieves KeepsSound (Ingester.enroll key payload) := by
  refine achieves_keepsSound (Ingester.enroll_keepsOrder key payload) fun hgo hs ↦ ?_
  obtain ⟨t, -, rfl, hst⟩ := Ingester.enroll_ok hgo
  obtain ⟨hmarks, howners, hmembers, -⟩ := Ingester.storeRecord_frame hst
  exact hs.of_frame (hs.form.storeRecord hst) hmarks howners hmembers

theorem deleteRecords_keepsSound {α : Type} {f : Tables → α × Tables} (fits : RecordRow → Bool)
    (hnow : now < Datestamp.limit) (hf : ∀ t, (f t).2 = (t.deleteRecords fits now).2) :
    Achieves KeepsSound (update f) := by
  refine achieves_keepsSound (deleteRecords_keepsOrder fits now hf) fun hgo hs ↦ ?_
  obtain ⟨t, hst, rfl⟩ := go_statement_ok.mp hgo
  obtain rfl : (f _).2 = t := (Prod.mk.inj (Except.ok.inj hst)).2
  rw [hf]
  exact hs.deleteRecords fits hnow

/-- A statement that changes neither marks nor owners nor members. -/
theorem statement_keepsSound {α : Type} {st : Statement α}
    (h : ∀ {t a t'}, t.Wellformed → st t = .ok (a, t') → t'.Wellformed ∧ t'.marks = t.marks ∧
      t'.owners = t.owners ∧ t'.members = t.members ∧ t'.records = t.records) :
    Achieves KeepsSound (Work.statement st) := by
  refine achieves_keepsSound (achieves_keepsOrder_statement fun t a t' hform hst ↦ ?_) ?_
  · obtain ⟨hform', hmarks, -, -, hrecords⟩ := h hform hst
    refine ⟨hform', fun m hm ↦ ⟨m, hmarks ▸ hm, rfl⟩, fun r hr ↦ ?_⟩
    rwa [Stores, hrecords] at hr
  · intro s a s' hgo hs
    obtain ⟨t, hst, rfl⟩ := go_statement_ok.mp hgo
    obtain ⟨hform, hmarks, howners, hmembers, -⟩ := h hs.form hst
    exact hs.of_frame hform hmarks howners hmembers

/-- A statement that removes what belongs to a match key. -/
theorem clear_keepsSound {α : Type} {f : Tables → α × Tables} (config : String)
    (hform : ∀ t, t.Wellformed → (f t).2.Wellformed)
    (hf : ∀ t, (f t).2.marks = (t.clear config).marks ∧ (f t).2.owners = (t.clear config).owners ∧
      (f t).2.members = (t.clear config).members ∧ (f t).2.records = t.records) :
    Achieves KeepsSound (update f) := by
  refine achieves_keepsSound (achieves_keepsOrder_statement fun t a t' ht hst ↦ ?_) ?_
  · obtain rfl : (f t).2 = t' := (Prod.mk.inj (Except.ok.inj hst)).2
    obtain ⟨hmarks, -, -, hrecords⟩ := hf t
    refine ⟨hform t ht, fun m hm ↦ ⟨m, List.mem_of_mem_filter (hmarks ▸ hm), rfl⟩, fun r hr ↦ ?_⟩
    rwa [Stores, hrecords] at hr
  · intro s a s' hgo hs
    obtain ⟨t, hst, rfl⟩ := go_statement_ok.mp hgo
    obtain rfl : (f s.tables).2 = t := (Prod.mk.inj (Except.ok.inj hst)).2
    obtain ⟨hmarks, howners, hmembers, -⟩ := hf s.tables
    exact hs.clear (hform _ hs.form) hmarks howners hmembers

theorem Ingester.ingest_keepsSound (i : Ingester) (hnow : now < Datestamp.limit) (s : Submission) :
    Respects KeepsSound (i.ingest now s) := by
  have hL := lasting_keepsSound
  refine Ingester.respects_ingest hL (fun k _ r values ↦ ?_) (fun localId payload ↦ ?_) ?_ s
  · exact assign_keepsSound hnow r k.1.id values
  · exact enroll_keepsSound _ payload
  · refine fun localId ↦ .bind hL ?_ fun _ ↦ (Respects.pure hL _).achieves
    exact deleteRecords_keepsSound _ hnow fun t ↦ rfl

open Operation

/-- **What the engine does keeps tables sound**, whether it succeeds or not. -/
theorem respects_keepsSound {op : Operation} (hop : op.IsEngine)
    (hnow : ∀ now ∈ op.reading?, now < Datestamp.limit) (access : Access) :
    Respects KeepsSound (op.work access) := by
  have hL := lasting_keepsSound
  cases op with
  | insertMatchKey k =>
    refine Achieves.transaction hL (statement_keepsSound fun {t a t'} hform hst ↦ ?_)
      (grows_statement _) access
    have hform' := hform.insertMatchKey hst
    obtain ⟨-, rfl⟩ := insertMatchKey_ok_iff.mp hst
    exact ⟨hform', rfl, rfl, rfl, rfl⟩
  | updateMatchKey k =>
    refine respects_transaction_quietly hL (statement_keepsSound fun {t a t'} hform hst ↦ ?_)
      (grows_statement _) access
    obtain rfl : (t.updateMatchKey k).2 = t' := (Prod.mk.inj (Except.ok.inj hst)).2
    exact ⟨hform.updateMatchKey k, rfl, rfl, rfl, rfl⟩
  | deleteMatchKey id =>
    refine respects_transaction_quietly hL ?_ (grows_statement _) access
    exact clear_keepsSound id (fun t h ↦ h.deleteMatchKey id) fun t ↦ ⟨rfl, rfl, rfl, rfl⟩
  | clear config =>
    have hupdate : Achieves KeepsSound (update fun t ↦ ((), t.clear config)) :=
      clear_keepsSound config (fun t h ↦ h.clear config) fun t ↦ ⟨rfl, rfl, rfl, rfl⟩
    have hclear : Achieves KeepsSound (change (·.clear config)) := hupdate
    exact hclear.transaction hL (grows_change _) access
  | storeRecord key payload =>
    exact respects_transaction_quietly hL (enroll_keepsSound key payload)
      (Ingester.enroll_grows key payload) access
  | deleteRecord | deleteSource | assign | rebuild | ingest =>
    exact respects_timed hL (by trivial) (by rfl)
      (fun c _ r values ↦ assign_keepsSound (hnow _ rfl) r c values) enroll_keepsSound
      (fun fits ↦ deleteRecords_keepsSound fits (hnow _ rfl)) access
  | start | advance | merge | insertValue | setMember => exact hop.elim

theorem run_keepsSound {calls : List Call} (hcalls : ∀ c ∈ calls, c.op.IsEngine ∧
    ∀ now ∈ c.op.reading?, now < Datestamp.limit) (s : World) : KeepsSound s (run s calls) := by
  induction calls generalizing s with
  | nil => exact lasting_keepsSound.refl s
  | cons c rest ih =>
    obtain ⟨hop, hnow⟩ := hcalls c List.mem_cons_self
    have hc : KeepsSound s (c.perform s) := respects_keepsSound hop hnow c.access s
    exact lasting_keepsSound.trans hc (ih (fun c hc ↦ hcalls c (List.mem_cons_of_mem _ hc)) _)

namespace Reachable

/-- **The tables that the engine leads to are sound.** -/
theorem sound (h : Reachable s) : s.tables.Sound := by
  obtain ⟨s₀, calls, hempty, rfl, hcalls⟩ := h
  exact (run_keepsSound hcalls s₀).2 (hempty ▸ Tables.Sound.empty)

/-- As long as identifiers fit into their columns, the world is in order as well. -/
theorem orderly (h : Reachable s) (hids : s.ids.next ≤ idLimit) : s.Orderly := by
  obtain ⟨s₀, calls, hempty, rfl, hcalls⟩ := h
  exact (run_keepsSound hcalls s₀).1.2 hids (World.orderly_of_empty hempty)

end Reachable

end RecordLinkage
