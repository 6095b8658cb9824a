import Mathlib.Data.Set.Card
import Mathlib.Data.Set.Finite.Lemmas
import RecordLinkage.Proofs.Clustering.Harvest
import RecordLinkage.Proofs.Clustering.References
import RecordLinkage.Proofs.History.Range
import RecordLinkage.Proofs.Store.Paging

/-!
# What is read of a clustering

A clustering can be asked for its clusters, for the owner of a value, for the cluster of a record,
for its numbers and for the listing of its clusters. A cluster is looked up by its identifier alone,
without the match key, and everything else under the match key. The answers fit together because a
cluster belongs to one match key, a value has one owner and a record one membership there, and
members are stored.

The view of a cluster leaves out what is superseded: a record of whose source it has a later
version. Such a record is a member nevertheless, and counted as one.

Two things can stand in the way of an answer, and only these: a payload that is nested more deeply
than what can be read, and a datestamp beyond 64 bits.
-/

namespace RecordLinkage

open Tables

/-! ## Views -/

namespace ClusterView

variable {x : ClusterId} {stamp : Option Datestamp} {records : List Record} {values : List String}
  {r : Record}

/-- A view shows a record, or a later version of its source in place of it. -/
def Covers (view : ClusterView) (r : Record) : Prop :=
  r ∈ view.records ∨
    ∃ later ∈ view.records, later.sourceId = r.sourceId ∧ r.sourceVersion < later.sourceVersion

theorem isLatest_iff : isLatest records r = true ↔
    ∀ other ∈ records, other.sourceId = r.sourceId → other.sourceVersion ≤ r.sourceVersion := by
  simp [isLatest, imp_iff_not_or]

theorem mem_records_of : r ∈ (ClusterView.of x stamp records values).records ↔
    r ∈ records ∧
      ∀ other ∈ records, other.sourceId = r.sourceId → other.sourceVersion ≤ r.sourceVersion := by
  rw [ClusterView.of, Sorted.mem_sortBy, List.mem_filter, isLatest_iff]

/-- A record that a view leaves out is superseded by one that the view shows. -/
theorem covers_of (hr : r ∈ records) : (ClusterView.of x stamp records values).Covers r := by
  have hfinite : {other | other ∈ records ∧ other.sourceId = r.sourceId}.Finite :=
    (List.finite_toSet records).subset fun _ h ↦ h.1
  obtain ⟨latest, ⟨hlatest, hsource⟩, hmax⟩ :=
    Set.exists_max_image _ Record.sourceVersion hfinite ⟨r, hr, rfl⟩
  rcases (hmax r ⟨hr, rfl⟩).lt_or_eq with hlt | heq
  · refine Or.inr ⟨latest, mem_records_of.mpr ⟨hlatest, fun other hother ho ↦ ?_⟩, hsource, hlt⟩
    exact hmax other ⟨hother, ho.trans hsource⟩
  · refine Or.inl (mem_records_of.mpr ⟨hr, fun other hother ho ↦ ?_⟩)
    exact heq ▸ hmax other ⟨hother, ho⟩

theorem nodup_records_of (h : (records.map Record.id).Nodup) :
    ((ClusterView.of x stamp records values).records.map Record.id).Nodup := by
  have hperm : (Sorted.sortBy Record.before (records.filter (isLatest records))).Perm _ :=
    Sorted.sortBy_perm _
  exact (hperm.map Record.id).nodup_iff.mpr (h.sublist (List.filter_sublist.map _))

end ClusterView

namespace Tables

variable {t : Tables} {c : String} {x y : ClusterId} {m : ClusterMark} {v : String} {q : RecordId}
  {r : Record} {view : ClusterView}

/-- A stored record is a member of a cluster that is marked. -/
def Contains (t : Tables) (m : ClusterMark) (r : Record) : Prop :=
  t.record? r.id = .ok (some r) ∧ t.clusterOf? r.id m.config = .ok (some m.cluster)

/-- A view shows the cluster that the other questions are answered with: the values that it owns,
and of each source the latest version among its members. -/
structure Shows (t : Tables) (m : ClusterMark) (view : ClusterView) : Prop where
  cluster : view.cluster = m.cluster
  ascending : view.matchValues.Pairwise (· < ·)
  mem_matchValues : ∀ v, v ∈ view.matchValues ↔ t.ownerOf? m.config v = .ok (some m.cluster)
  nodup : (view.records.map Record.id).Nodup
  mem_records : ∀ r, r ∈ view.records ↔ t.Contains m r ∧ ∀ other, t.Contains m other →
    other.sourceId = r.sourceId → other.sourceVersion ≤ r.sourceVersion

/-- Under a match key, what is owned or a member is shown by one cluster and by no other. -/
structure ShownOnce (t : Tables) (c : String) : Prop where
  value : ∀ v x, t.ownerOf? c v = .ok (some x) → t.Marked c x ∧
    ∀ y view, t.Marked c y → t.cluster? y = .ok (some view) → (v ∈ view.matchValues ↔ y = x)
  member : ∀ q x, t.clusterOf? q c = .ok (some x) → t.Marked c x ∧
    ∀ y view, t.Marked c y → t.cluster? y = .ok (some view) →
      (∀ r ∈ view.records, r.id = q → y = x) ∧
      (y = x → ∃ r, t.record? q = .ok (some r) ∧ view.Covers r)

/-- The numbers of a match key are how many values are owned under it, how many stored records are
members, and how many clusters are listed from the least 64-bit number on. -/
structure Counted (t : Tables) (c : String) : Prop where
  values : {v | ∃ x, t.ownerOf? c v = .ok (some x)}.encard = (t.counts c).1
  members : {q | t.Stores q ∧ ∃ x, t.clusterOf? q c = .ok (some x)}.encard = (t.counts c).2.1
  answered : ∀ n, t.marks.length ≤ n →
    ((∃ rows, t.changedSince c Number.leastSigned none n = .ok rows) ↔
      ∀ m ∈ t.marks, m.config = c → m.datestamp < Datestamp.limit)
  listed : ∀ n rows, t.marks.length ≤ n →
    t.changedSince c Number.leastSigned none n = .ok rows →
      rows.length = (t.counts c).2.2 ∧ (rows.map ClusterMark.cluster).Nodup ∧
      ∀ m, m ∈ rows ↔ m ∈ t.marks ∧ m.config = c

/-! ## What tells rows apart -/

section Unique

variable {α κ σ : Type} {rows : List α} {p : α → Bool} {key : α → κ}

/-- Among some of the rows a part of the key may be enough. -/
theorem nodup_map_filter {short : α → σ} (h : (rows.map key).Nodup)
    (hshort : ∀ a ∈ rows.filter p, ∀ b ∈ rows.filter p, short a = short b → key a = key b) :
    ((rows.filter p).map short).Nodup := by
  refine ((List.Nodup.of_map _ h).filter p).map_on fun a ha b hb hab ↦ ?_
  exact List.inj_on_of_nodup_map h (List.mem_of_mem_filter ha) (List.mem_of_mem_filter hb)
    (hshort a ha b hb hab)

/-- Rows are counted by what tells them apart. -/
theorem encard_eq_countP (short : α → σ) {S : Set σ} (hnodup : ((rows.filter p).map short).Nodup)
    (hS : ∀ k, k ∈ S ↔ ∃ a ∈ rows, p a = true ∧ short a = k) : S.encard = rows.countP p := by
  classical
  have hset : S = ((rows.filter p).map short).toFinset := by
    ext k
    simp [hS, and_assoc]
  rw [hset, Set.encard_coe_eq_coe_finsetCard, List.toFinset_card_of_nodup hnodup, List.length_map,
    List.countP_eq_length_filter]

end Unique

/-! ## Looking records up -/

theorem record?_eq_some_iff :
    t.record? q = .ok (some r) ↔ ∃ row, t.recordRow? q = some row ∧ row.read = .ok r := by
  rw [record?]
  rcases t.recordRow? q with _ | row
  · simp
  · rcases hread : row.read with f | record <;> simp [Except.map, hread]

theorem mem_of_recordRow? {row : RecordRow} (h : t.recordRow? q = some row) :
    row ∈ t.records ∧ row.id = .intact q := by
  have hid := List.find?_some h
  exact ⟨List.mem_of_find?_eq_some h, of_decide_eq_true hid⟩

theorem mem_of_mem_memberRows {row : RecordRow} (h : row ∈ t.memberRows x) : row ∈ t.records := by
  obtain ⟨member, -, hrow⟩ := List.mem_filterMap.mp h
  exact (mem_of_recordRow? hrow).1

theorem Wellformed.id_of_read (h : t.Wellformed) {row : RecordRow} (hrow : row ∈ t.records)
    (hread : row.read = .ok r) : row.id = .intact r.id := by
  obtain ⟨record, htells⟩ := h.exists_tells hrow
  obtain rfl := htells.eq_of_read hread
  exact htells.id

/-- Rows that are read are read as the records that they tell. -/
theorem eq_map_of_mapM {f : RecordRow → Record} {rows : List RecordRow} {records : List Record}
    (h : ∀ row ∈ rows, Tells row (f row)) (hok : rows.mapM RecordRow.read = .ok records) :
    records = rows.map f ∧ ∀ row ∈ rows, row.read = .ok (f row) := by
  have hread : ∀ row ∈ rows, row.read = .ok (f row) := by
    intro row hrow
    obtain ⟨r, hr⟩ := exists_mapM_ok_iff.mp ⟨records, hok⟩ row hrow
    rw [hr, (h row hrow).eq_of_read hr]
  have hmap : rows.mapM RecordRow.read = .ok (rows.map f) := by
    rw [mapM_ok_iff, List.forall₂_map_right_iff, List.forall₂_same]
    exact hread
  rw [hmap] at hok
  exact ⟨(Except.ok.inj hok).symm, hread⟩

/-! ## Views of sound tables -/

theorem cluster?_eq_none_iff (h : t.Wellformed) :
    t.cluster? x = .ok none ↔ ∀ m ∈ t.marks, m.cluster ≠ x := by
  constructor
  · rintro hnone m hm rfl
    exact (h.resolves hm).found hnone
  · intro hno
    have hfind : t.marks.find? (fun m ↦ m.cluster = x) = none :=
      List.find?_eq_none.mpr fun m hm ↦ by simpa using hno m hm
    rw [cluster?, mark?, hfind]
    rfl

theorem exists_cluster?_iff (h : t.Wellformed) :
    (∃ view, t.cluster? x = .ok (some view)) ↔ (∃ m ∈ t.marks, m.cluster = x) ∧ t.Legible x := by
  constructor
  · rintro ⟨view, hview⟩
    have hmarked : ∃ m ∈ t.marks, m.cluster = x := by
      by_contra hno
      push Not at hno
      rw [(cluster?_eq_none_iff h).mpr hno] at hview
      cases hview
    obtain ⟨m, hm, rfl⟩ := hmarked
    exact ⟨⟨m, hm, rfl⟩, (h.resolves hm).shown.mp ⟨view, hview⟩⟩
  · rintro ⟨⟨m, hm, rfl⟩, hlegible⟩
    exact (h.resolves hm).shown.mpr hlegible

namespace Sound

variable (h : t.Sound)

include h

/-- A cluster is looked up by its identifier alone, and finds only what belongs to its match key. -/
theorem mem_valuesOf_iff (hx : t.Marked c x) : v ∈ t.valuesOf x ↔ t.Owns c x v := by
  constructor
  · intro hv
    obtain ⟨⟨c', v, cell⟩, ho, rfl⟩ := List.mem_map.mp hv
    obtain ⟨ho, hcell⟩ := List.mem_filter.mp ho
    obtain rfl : cell = .intact x := of_decide_eq_true hcell
    obtain rfl := h.config_unique hx (h.owner_marked c' x v ho)
    exact ho
  · exact mem_valuesOf

theorem config_of_member (hx : t.Marked c x) {member : MemberRow}
    (hmember : member ∈ t.members.filter fun m ↦ m.cluster = .intact x) :
    member = ⟨member.record, c, .intact x⟩ ∧ t.Holds c x member.record := by
  obtain ⟨q, c', cell⟩ := member
  obtain ⟨hmember, hcell⟩ := List.mem_filter.mp hmember
  obtain rfl : cell = .intact x := of_decide_eq_true hcell
  obtain rfl := h.config_unique hx (h.member_marked c' x q hmember)
  exact ⟨rfl, hmember⟩

theorem mem_memberRows_iff (hx : t.Marked c x) {row : RecordRow} :
    row ∈ t.memberRows x ↔ ∃ q, t.Holds c x q ∧ t.recordRow? q = some row := by
  rw [memberRows, List.mem_filterMap]
  constructor
  · rintro ⟨member, hmember, hrow⟩
    exact ⟨member.record, (h.config_of_member hx hmember).2, hrow⟩
  · rintro ⟨q, hq, hrow⟩
    exact ⟨_, List.mem_filter.mpr ⟨hq, decide_eq_true rfl⟩, hrow⟩

/-- No record is found twice among the members of a cluster. -/
theorem nodup_memberRows (hx : t.Marked c x) : (t.memberRows x).Nodup := by
  have hids : ((t.members.filter fun m ↦ m.cluster = .intact x).map MemberRow.record).Nodup := by
    refine nodup_map_filter h.form.member_nodup fun a ha b hb hid ↦ ?_
    rw [(h.config_of_member hx ha).1, (h.config_of_member hx hb).1, hid]
  have hrows := hids.filterMap (f := t.recordRow?) fun q q' row hq hq' ↦
    Cell.intact.inj ((mem_of_recordRow? hq).2.symm.trans (mem_of_recordRow? hq').2)
  rwa [List.filterMap_map] at hrows

theorem contains_iff (hm : m ∈ t.marks) :
    t.Contains m r ↔ ∃ row ∈ t.memberRows m.cluster, row.read = .ok r := by
  have hx : t.Marked m.config m.cluster := ⟨m, hm, rfl, rfl⟩
  simp only [Contains, record?_eq_some_iff, h.form.clusterOf?_eq_some_iff, h.mem_memberRows_iff hx]
  constructor
  · rintro ⟨⟨row, hrow, hread⟩, hholds⟩
    exact ⟨row, ⟨r.id, hholds, hrow⟩, hread⟩
  · rintro ⟨row, ⟨q, hq, hrow⟩, hread⟩
    obtain ⟨hmem, hid⟩ := mem_of_recordRow? hrow
    obtain rfl := Cell.intact.inj (hid.symm.trans (h.form.id_of_read hmem hread))
    exact ⟨⟨row, hrow, hread⟩, hq⟩

/-- The records that a view is made of are the members of the cluster. -/
theorem members_of_read (hm : m ∈ t.marks) {records : List Record}
    (hok : (t.memberRows m.cluster).mapM RecordRow.read = .ok records) :
    (records.map Record.id).Nodup ∧ ∀ r, r ∈ records ↔ t.Contains m r := by
  obtain ⟨read, htells⟩ := h.form.exists_reading
  have htells' : ∀ row ∈ t.memberRows m.cluster, Tells row (read row) :=
    fun row hrow ↦ htells row (mem_of_mem_memberRows hrow)
  obtain ⟨rfl, hread⟩ := eq_map_of_mapM htells' hok
  constructor
  · rw [List.map_map]
    refine (h.nodup_memberRows ⟨m, hm, rfl, rfl⟩).map_on fun a ha b hb hid ↦ ?_
    refine h.form.record_ext (mem_of_mem_memberRows ha) (mem_of_mem_memberRows hb) ?_
    rw [(htells' a ha).id, (htells' b hb).id]
    exact congrArg Cell.intact hid
  · intro r
    rw [h.contains_iff hm, List.mem_map]
    refine exists_congr fun row ↦ and_congr_right fun hrow ↦ ?_
    rw [hread row hrow, Except.ok.injEq]

theorem shows (hm : m ∈ t.marks) (hview : t.cluster? m.cluster = .ok (some view)) :
    t.Shows m view := by
  obtain ⟨records, hok, rfl⟩ := h.form.view_of_cluster? hm hview
  obtain ⟨hnodup, hmem⟩ := h.members_of_read hm hok
  refine ⟨rfl, Sorted.pairwise_ofList _, fun v ↦ ?_, ClusterView.nodup_records_of hnodup,
    fun r ↦ ?_⟩
  · rw [h.form.ownerOf?_eq_some_iff, ← h.mem_valuesOf_iff ⟨m, hm, rfl, rfl⟩]
    exact Sorted.mem_ofList
  · simp only [ClusterView.mem_records_of, hmem]

theorem covers (hm : m ∈ t.marks) (hview : t.cluster? m.cluster = .ok (some view))
    (hr : t.Contains m r) : view.Covers r := by
  obtain ⟨records, hok, rfl⟩ := h.form.view_of_cluster? hm hview
  exact ClusterView.covers_of (((h.members_of_read hm hok).2 r).mpr hr)

/-- A member of a cluster that has a view is a record that can be read. -/
theorem exists_contains (hm : m ∈ t.marks) (hview : t.cluster? m.cluster = .ok (some view))
    (hq : t.Holds m.config m.cluster q) : ∃ r, r.id = q ∧ t.Contains m r := by
  obtain ⟨row, hrow, hid⟩ := h.form.exists_memberRow hq
  obtain ⟨-, hrows⟩ := (h.form.resolves hm).shown.mp ⟨view, hview⟩
  obtain ⟨r, hread⟩ := hrows row hrow
  have hrid := h.form.id_of_read (mem_of_mem_memberRows hrow) hread
  exact ⟨r, Cell.intact.inj (hrid.symm.trans hid), (h.contains_iff hm).mpr ⟨row, hrow, hread⟩⟩

theorem shownOnce (c : String) : t.ShownOnce c where
  value v x hv := by
    have hx := (h.form.ownerOf?_eq_some_iff).mp hv
    refine ⟨h.owner_marked c x v hx, ?_⟩
    rintro y view ⟨m, hm, rfl, rfl⟩ hview
    rw [(h.shows hm hview).mem_matchValues, hv, Except.ok.injEq, Option.some.injEq]
    exact eq_comm
  member q x hq := by
    have hx := (h.form.clusterOf?_eq_some_iff).mp hq
    refine ⟨h.member_marked c x q hx, ?_⟩
    rintro y view ⟨m, hm, rfl, rfl⟩ hview
    constructor
    · rintro r hr rfl
      have hcluster := (((h.shows hm hview).mem_records r).mp hr).1.2
      rw [hq] at hcluster
      exact (Option.some.inj (Except.ok.inj hcluster)).symm
    · rintro rfl
      obtain ⟨r, rfl, hr⟩ := h.exists_contains hm hview hx
      exact ⟨r, hr.1, h.covers hm hview hr⟩

end Sound

/-! ## Numbers -/

namespace Wellformed

variable (h : t.Wellformed)

include h

/-- Some of the values that are owned under a match key are counted by their rows. -/
theorem encard_owned {p : OwnerRow → Bool} (hp : ∀ o, p o = true → o.config = c) {S : Set String}
    (hS : ∀ v, v ∈ S ↔ ∃ x, t.Owns c x v ∧ p ⟨c, v, .intact x⟩ = true) :
    S.encard = t.owners.countP p := by
  refine encard_eq_countP OwnerRow.value ?_ fun v ↦ ?_
  · refine nodup_map_filter h.owner_nodup fun a ha b hb hvalue ↦ ?_
    rw [OwnerRow.key, OwnerRow.key, hp a (List.mem_filter.mp ha).2, hp b (List.mem_filter.mp hb).2,
      hvalue]
  · rw [hS]
    constructor
    · rintro ⟨x, hx, hfits⟩
      exact ⟨_, hx, hfits, rfl⟩
    · rintro ⟨⟨c', v, cell⟩, ho, hfits, rfl⟩
      obtain rfl : c' = c := hp _ hfits
      obtain ⟨x, rfl⟩ := h.owner_intact _ ho
      exact ⟨x, ho, hfits⟩

/-- Some of the members that a match key has are counted by their rows. -/
theorem encard_held {p : MemberRow → Bool} (hp : ∀ m, p m = true → m.config = c) {S : Set RecordId}
    (hS : ∀ q, q ∈ S ↔ ∃ x, t.Holds c x q ∧ p ⟨q, c, .intact x⟩ = true) :
    S.encard = t.members.countP p := by
  refine encard_eq_countP MemberRow.record ?_ fun q ↦ ?_
  · refine nodup_map_filter h.member_nodup fun a ha b hb hrecord ↦ ?_
    rw [MemberRow.key, MemberRow.key, hp a (List.mem_filter.mp ha).2, hp b (List.mem_filter.mp hb).2,
      hrecord]
  · rw [hS]
    constructor
    · rintro ⟨x, hx, hfits⟩
      exact ⟨_, hx, hfits, rfl⟩
    · rintro ⟨⟨q, c', cell⟩, hmember, hfits, rfl⟩
      obtain rfl : c' = c := hp _ hfits
      obtain ⟨x, rfl⟩ := h.member_intact _ hmember
      exact ⟨x, hmember, hfits⟩

theorem encard_values (c : String) :
    {v | ∃ x, t.ownerOf? c v = .ok (some x)}.encard = (t.counts c).1 :=
  h.encard_owned (fun _ ↦ of_decide_eq_true) fun v ↦ by
    simp [h.ownerOf?_eq_some_iff]

theorem encard_members (c : String) :
    {q | t.Stores q ∧ ∃ x, t.clusterOf? q c = .ok (some x)}.encard = (t.counts c).2.1 := by
  refine h.encard_held (fun _ ↦ of_decide_eq_true) fun q ↦ ?_
  simp only [Set.mem_ofPred_eq, h.clusterOf?_eq_some_iff, decide_true, and_true]
  exact ⟨And.right, fun ⟨x, hx⟩ ↦ ⟨h.stores_of_holds hx, x, hx⟩⟩

end Wellformed

/-- No mark is before the least 64-bit number, so a listing from there on is of all clusters. -/
theorem changedSince_leastSigned_iff (hdated : t.DatedFrom Number.leastSigned) {n : Nat}
    (hn : t.marks.length ≤ n) {rows : List ClusterMark} :
    t.changedSince c Number.leastSigned none n = .ok rows ↔
      rows = Sorted.sortBy ClusterMark.before (t.marks.filter fun m ↦ m.config = c) ∧
        ∀ m ∈ t.marks, m.config = c → m.datestamp < Datestamp.limit := by
  have hlisted : ∀ m ∈ t.marks, isListed Number.leastSigned none m = true :=
    fun m hm ↦ decide_eq_true (hdated m hm)
  have hfilter : t.marks.filter (fun m ↦ m.config = c && isListed Number.leastSigned none m)
      = t.marks.filter (fun m ↦ m.config = c) :=
    List.filter_congr fun m hm ↦ by rw [hlisted m hm, Bool.and_true]
  rw [changedSince_ok_iff hn, hfilter]
  refine and_congr_right fun _ ↦ forall₃_congr fun m hm _ ↦ ?_
  exact imp_iff_right (hlisted m hm)

theorem Sound.counted (h : t.Sound) (hdated : t.DatedFrom Number.leastSigned) (c : String) :
    t.Counted c where
  values := h.form.encard_values c
  members := h.form.encard_members c
  answered n hn := by
    simp only [changedSince_leastSigned_iff hdated hn, exists_and_right, exists_eq, true_and]
  listed n rows hn hok := by
    obtain ⟨rfl, -⟩ := (changedSince_leastSigned_iff hdated hn).mp hok
    have hperm : (Sorted.sortBy ClusterMark.before (t.marks.filter fun m ↦ m.config = c)).Perm _ :=
      Sorted.sortBy_perm _
    refine ⟨?_, ?_, fun m ↦ ?_⟩
    · rw [hperm.length_eq, ← List.countP_eq_length_filter]
      rfl
    · exact (hperm.map _).nodup_iff.mpr (h.form.mark_nodup.sublist (List.filter_sublist.map _))
    · rw [hperm.mem_iff, List.mem_filter, decide_eq_true_iff]

end Tables

/-! ## Worlds that the engine leads to -/

variable {s : World}

/-- **All reads describe one clustering.** Whatever the engine has done, asking for a cluster finds
nothing exactly when it has no mark, and a view exactly when it has one and its rows can be read.
The view has the values that the cluster owns, ascending, and of its members those that are not
superseded by a later version of their source. What is owned under a match key, and what is a
member, is shown by one cluster, which belongs to the match key. The numbers of the match key are
those of the values with an owner, of the records with a cluster, and of the clusters that are
listed from the least datestamp on. -/
theorem reads_agree (h : Clocked s) :
    (∀ x, (s.tables.cluster? x = .ok none ↔ ∀ m ∈ s.tables.marks, m.cluster ≠ x) ∧
      ((∃ view, s.tables.cluster? x = .ok (some view)) ↔
        (∃ m ∈ s.tables.marks, m.cluster = x) ∧ s.tables.Legible x)) ∧
    (∀ m ∈ s.tables.marks, ∀ view, s.tables.cluster? m.cluster = .ok (some view) →
      s.tables.Shows m view) ∧
    ∀ c, s.tables.ShownOnce c ∧ s.tables.Counted c := by
  have hs := h.reachable.sound
  refine ⟨fun x ↦ ⟨cluster?_eq_none_iff hs.form, exists_cluster?_iff hs.form⟩, ?_, ?_⟩
  · exact fun m hm view hview ↦ hs.shows hm hview
  · exact fun c ↦ ⟨hs.shownOnce c, hs.counted h.dated c⟩

open Sample in
/-- The view of the cluster that the other one was merged into has the values that it owns. Three
values are owned in all, and both clusters are listed. -/
theorem bridge_reads_agree : ∃ view,
    (run blank bridge).tables.cluster? ⟨Uuid.ofNat 2⟩ = .ok (some view) ∧
    (∀ v, v ∈ view.matchValues ↔
      (run blank bridge).tables.ownerOf? "isbn" v = .ok (some ⟨Uuid.ofNat 2⟩)) ∧
    {v | ∃ x, (run blank bridge).tables.ownerOf? "isbn" v = .ok (some x)}.encard = 3 ∧
    ∃ rows, (run blank bridge).tables.changedSince "isbn" Number.leastSigned none 10 = .ok rows ∧
      rows.length = 2 := by
  have hclocked : Clocked (run blank bridge) := by
    refine ⟨blank, bridge, rfl, rfl, ?_⟩
    simp [bridge, Operation.IsEngine, Operation.reading?, Number.leastSigned, Number.greatestSigned]
  have hmark : (⟨⟨Uuid.ofNat 2⟩, "isbn", 6⟩ : ClusterMark) ∈ (run blank bridge).tables.marks := by
    decide +kernel
  have hcounts : (run blank bridge).tables.counts "isbn" = (3, 2, 2) := by decide +kernel
  have hroom : (run blank bridge).tables.marks.length ≤ 10 := by decide +kernel
  have hstamps : ∀ m ∈ (run blank bridge).tables.marks, m.config = "isbn" →
      m.datestamp < Datestamp.limit := by
    decide +kernel
  have hfound :
      ((run blank bridge).tables.cluster? ⟨Uuid.ofNat 2⟩).toOption.join.isSome = true := by
    decide +kernel
  obtain ⟨-, hshows, hnumbers⟩ := reads_agree hclocked
  obtain ⟨-, hcounted⟩ := hnumbers "isbn"
  rcases hview : (run blank bridge).tables.cluster? ⟨Uuid.ofNat 2⟩ with f | _ | view
  · rw [hview] at hfound
    cases hfound
  · rw [hview] at hfound
    cases hfound
  · obtain ⟨rows, hrows⟩ := (hcounted.answered 10 hroom).mpr hstamps
    refine ⟨view, rfl, (hshows _ hmark view hview).mem_matchValues, ?_, rows, hrows, ?_⟩
    · rw [hcounted.values, hcounts]
      rfl
    · rw [(hcounted.listed 10 rows hroom hrows).1, hcounts]

end RecordLinkage
