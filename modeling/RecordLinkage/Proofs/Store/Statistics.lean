import RecordLinkage.Proofs.Clustering.Agreement
import RecordLinkage.Proofs.Histogram
import RecordLinkage.Proofs.Store.Paging

/-!
# Statistics agree with the tables

The statistics of a match key are computed in one pass over its clusters with members, which are
grouped out of the memberships; the values of each are counted separately. Two totals, two
histograms and a few samples are kept up side by side on the way. What they say can be checked
against the tables in more than one manner: memberships are counted cluster by cluster or all at
once, clusters by their members or by their values.

Values may be owned by clusters without members, and these are in no histogram. They are what the
values of the histogram lack.
-/

namespace RecordLinkage

/-! ## Statistics as histograms -/

namespace ClusterStats

open Sorted

/-- One more cluster is named, unless there are enough of them. -/
def name (named : List ClusterId) (c : ClusterSize) : List ClusterId :=
  if named.length < sampleSize then named ++ [c.cluster] else named

theorem ofSizes_eq (sizes : List ClusterSize) : ofSizes sizes =
    ⟨(sizes.map ClusterSize.records).sum, sizes.length, histogram ClusterSize.values sizes,
      histogram ClusterSize.records sizes, collect ClusterSize.records [] name sizes⟩ := by
  induction sizes using List.reverseRecOn with
  | nil => rfl
  | append_singleton sizes c ih =>
    have hadd : ofSizes (sizes ++ [c]) = (ofSizes sizes).add c := List.foldl_append
    have hrecords : ((sizes ++ [c]).map ClusterSize.records).sum
        = (sizes.map ClusterSize.records).sum + c.records := by
      rw [List.map_append, List.sum_append]
      rfl
    have hvalues : histogram ClusterSize.values (sizes ++ [c])
        = update c.values 0 (· + 1) (histogram ClusterSize.values sizes) :=
      collect_concat ClusterSize.values 0 _ sizes c
    have hmembers : histogram ClusterSize.records (sizes ++ [c])
        = update c.records 0 (· + 1) (histogram ClusterSize.records sizes) :=
      collect_concat ClusterSize.records 0 _ sizes c
    rw [hadd, ih, hrecords, List.length_append, hvalues, hmembers, collect_concat]
    rfl

/-- The first clusters are named. -/
theorem foldl_name (sizes : List ClusterSize) :
    sizes.foldl name [] = (sizes.map ClusterSize.cluster).take sampleSize := by
  induction sizes using List.reverseRecOn with
  | nil => rfl
  | append_singleton sizes c ih =>
    rw [List.foldl_append, ih, List.foldl_cons, List.foldl_nil, name, List.map_append,
      List.length_take]
    by_cases hroom : (sizes.map ClusterSize.cluster).length < sampleSize
    · rw [if_pos (by omega), List.take_of_length_le hroom.le,
        List.take_of_length_le (by rw [List.length_append]; exact hroom)]
      rfl
    · rw [if_neg (by omega), List.take_append_of_le_length (by omega)]

end ClusterStats

/-! ## Clusters with members -/

/-- What is left when repetitions are erased is there once. -/
theorem nodup_eraseDups {α : Type} [BEq α] [LawfulBEq α] (xs : List α) : xs.eraseDups.Nodup := by
  induction h : xs.length using Nat.strong_induction_on generalizing xs with
  | _ n ih =>
    rcases xs with - | ⟨a, rest⟩
    · exact List.nodup_nil
    · rw [List.eraseDups_cons, List.nodup_cons]
      refine ⟨by simp [List.mem_eraseDups], ih _ ?_ _ rfl⟩
      rw [← h, List.length_cons]
      exact Nat.lt_succ_of_le (List.length_filter_le _ _)

namespace Tables

variable {t : Tables} {c : String} {x : ClusterId} {k n : ℕ}

/-- How many members a cluster has under a match key. -/
def memberCount (t : Tables) (c : String) (x : ClusterId) : ℕ :=
  t.members.countP fun m ↦ m.config = c && m.cluster = .intact x

/-- How many values a cluster owns under a match key. -/
def valueCount (t : Tables) (c : String) (x : ClusterId) : ℕ :=
  t.owners.countP fun o ↦ o.config = c && o.cluster = .intact x

/-- A cluster with its numbers. -/
def sizeAt (t : Tables) (c : String) (x : ClusterId) : ClusterSize :=
  ⟨x, t.memberCount c x, t.valueCount c x⟩

theorem memberCount_pos_iff : 0 < t.memberCount c x ↔ ∃ q, t.Holds c x q := by
  rw [memberCount, List.countP_pos_iff]
  constructor
  · rintro ⟨⟨q, c', cell⟩, hm, hfits⟩
    rw [Bool.and_eq_true, decide_eq_true_iff, decide_eq_true_iff] at hfits
    obtain ⟨rfl, rfl⟩ := hfits
    exact ⟨q, hm⟩
  · rintro ⟨q, hq⟩
    exact ⟨_, hq, by simp⟩

/-- The cells of clusters with members. -/
theorem mem_memberCells {cell : Cell ClusterId} :
    cell ∈ t.memberCells c ↔ ∃ q, (⟨q, c, cell⟩ : MemberRow) ∈ t.members := by
  simp only [memberCells, Sorted.mem_sortBy, List.mem_eraseDups, List.mem_map, List.mem_filter,
    decide_eq_true_eq]
  constructor
  · rintro ⟨⟨q, c', cell⟩, ⟨hm, rfl⟩, rfl⟩
    exact ⟨q, hm⟩
  · rintro ⟨q, hq⟩
    exact ⟨_, ⟨hq, rfl⟩, rfl⟩

namespace Wellformed

variable (h : t.Wellformed)

include h

theorem encard_holds (c : String) (x : ClusterId) :
    {q | t.Holds c x q}.encard = t.memberCount c x := by
  refine h.encard_held (c := c) (fun m hm ↦ ?_) fun q ↦ ?_
  · rw [Bool.and_eq_true, decide_eq_true_iff] at hm
    exact hm.1
  · simp [eq_comm]

theorem encard_owns (c : String) (x : ClusterId) :
    {v | t.Owns c x v}.encard = t.valueCount c x := by
  refine h.encard_owned (c := c) (fun o ho ↦ ?_) fun v ↦ ?_
  · rw [Bool.and_eq_true, decide_eq_true_iff] at ho
    exact ho.1
  · simp [eq_comm]

/-- **The clusters with members, each once, in ascending order.** -/
theorem exists_populated (c : String) : ∃ ids : List ClusterId,
    t.memberCells c = ids.map .intact ∧ ids.Pairwise (· < ·) ∧
      ∀ x, x ∈ ids ↔ ∃ q, t.Holds c x q := by
  have hrange : ((t.members.filter fun m ↦ m.config = c).map (·.cluster)).eraseDups ∈
      Set.range (List.map (Cell.intact : ClusterId → Cell ClusterId)) := by
    rw [Set.range_list_map]
    intro cell hcell
    rw [List.mem_eraseDups, List.mem_map] at hcell
    obtain ⟨m, hm, rfl⟩ := hcell
    obtain ⟨x, hx⟩ := h.member_intact m (List.mem_of_mem_filter hm)
    exact ⟨x, hx.symm⟩
  obtain ⟨ids, hids⟩ := hrange
  have hnodup : (ids.map ClusterId.toNat).Nodup := by
    have hcells := nodup_eraseDups ((t.members.filter fun m ↦ m.config = c).map (·.cluster))
    rw [← hids] at hcells
    exact hcells.of_map.map ClusterId.toNat_injective
  have hcells : t.memberCells c
      = (Sorted.sortBy (fun a b ↦ decide (a.toNat < b.toNat)) ids).map .intact := by
    rw [memberCells, ← hids, Sorted.sortBy_map]
    rfl
  refine ⟨_, hcells, Sorted.pairwise_sortBy_lt hnodup, fun x ↦ ?_⟩
  rw [← List.mem_map_of_injective (f := Cell.intact) (fun _ _ ↦ Cell.intact.inj), ← hcells,
    mem_memberCells]
  rfl

end Wellformed

/-- Clusters that are kept in a list are counted there. -/
theorem encard_mem_and {ids : List ClusterId} (hids : ids.Pairwise (· < ·)) {S : Set ClusterId}
    {p : ClusterId → Bool} (hS : ∀ x, x ∈ S ↔ x ∈ ids ∧ p x = true) : S.encard = ids.countP p := by
  refine encard_eq_countP id ?_ fun x ↦ ?_
  · rw [List.map_id]
    exact hids.nodup.filter p
  · rw [hS]
    constructor
    · rintro ⟨hx, hpx⟩
      exact ⟨x, hx, hpx, rfl⟩
    · rintro ⟨x, hx, hpx, rfl⟩
      exact ⟨hx, hpx⟩

/-- The statistics are made of the numbers of the clusters with members. -/
theorem stats_eq {ids : List ClusterId} (hcells : t.memberCells c = ids.map .intact) :
    t.stats c = .ok (ClusterStats.ofSizes (ids.map (t.sizeAt c))) := by
  have hsizes : (t.memberCells c).mapM (t.sizeOf c) = .ok (ids.map (t.sizeAt c)) := by
    rw [mapM_ok_iff, hcells, List.forall₂_map_left_iff, List.forall₂_map_right_iff,
      List.forall₂_same]
    intro x _
    rfl
  rw [stats, hsizes]
  rfl

/-! ## What statistics say -/

/-- What the statistics of a match key say of its memberships, of its clusters with members and of
the values that are owned under it. -/
structure Summarized (t : Tables) (c : String) (st : ClusterStats) : Prop where
  recordsTotal : st.recordsTotal = (t.counts c).2.1
  clustersTotal : {x | ∃ q, t.Holds c x q}.encard = st.clustersTotal
  sum_recordsPerCluster : (st.recordsPerCluster.map Prod.snd).sum = st.clustersTotal
  sum_valuesPerCluster : (st.valuesPerCluster.map Prod.snd).sum = st.clustersTotal
  sum_members : (st.recordsPerCluster.map fun e ↦ e.1 * e.2).sum = st.recordsTotal
  sum_values : ((st.valuesPerCluster.map fun e ↦ e.1 * e.2).sum : ℕ)
    + {v | ∃ x, t.Owns c x v ∧ ∀ q, ¬t.Holds c x q}.encard = (t.counts c).1
  recordsPerCluster_ascend : (st.recordsPerCluster.map Prod.fst).Pairwise (· < ·)
  valuesPerCluster_ascend : (st.valuesPerCluster.map Prod.fst).Pairwise (· < ·)
  mem_recordsPerCluster : ∀ k n, (k, n) ∈ st.recordsPerCluster ↔
    0 < k ∧ 0 < n ∧ {x | {q | t.Holds c x q}.encard = k}.encard = n
  mem_valuesPerCluster : ∀ k n, (k, n) ∈ st.valuesPerCluster ↔
    0 < n ∧ {x | (∃ q, t.Holds c x q) ∧ {v | t.Owns c x v}.encard = k}.encard = n
  samples_keys : st.samples.map Prod.fst = st.recordsPerCluster.map Prod.fst
  samples_least : ∀ k named, (k, named) ∈ st.samples → named.Pairwise (· < ·) ∧
    (∀ n, (k, n) ∈ st.recordsPerCluster → named.length = min ClusterStats.sampleSize n) ∧
    (∀ x ∈ named, {q | t.Holds c x q}.encard = k) ∧
    ∀ y, {q | t.Holds c y q}.encard = k → y ∉ named → ∀ x ∈ named, x < y

/-- Memberships are counted cluster by cluster. -/
theorem sum_memberCount {ids : List ClusterId} (hids : ids.Nodup)
    (hcells : t.memberCells c = ids.map .intact) :
    (ids.map (t.memberCount c)).sum = (t.counts c).2.1 := by
  have hnodup : (t.memberCells c).Nodup :=
    hcells ▸ hids.map fun _ _ ↦ Cell.intact.inj
  have hsum := Sorted.sum_countP MemberRow.cluster hnodup (fun m ↦ m.config = c) t.members
  rw [hcells, List.map_map] at hsum
  refine hsum.trans (List.countP_congr fun m hm ↦ ?_)
  rw [← hcells, Bool.and_eq_true, decide_eq_true_iff, List.contains_iff_mem, mem_memberCells]
  refine ⟨And.left, ?_⟩
  rintro rfl
  exact ⟨rfl, m.record, hm⟩

/-- Values are counted cluster by cluster, but for those of clusters without members. -/
theorem Wellformed.sum_valueCount (h : t.Wellformed) {ids : List ClusterId} (hids : ids.Nodup)
    (hcells : t.memberCells c = ids.map .intact) : ((ids.map (t.valueCount c)).sum : ℕ)
      + {v | ∃ x, t.Owns c x v ∧ ∀ q, ¬t.Holds c x q}.encard = (t.counts c).1 := by
  have hnodup : (t.memberCells c).Nodup :=
    hcells ▸ hids.map fun _ _ ↦ Cell.intact.inj
  have hsum := Sorted.sum_countP OwnerRow.cluster hnodup (fun o ↦ o.config = c) t.owners
  have hothers : {v | ∃ x, t.Owns c x v ∧ ∀ q, ¬t.Holds c x q}.encard
      = t.owners.countP fun o ↦ o.config = c && !(t.memberCells c).contains o.cluster := by
    refine h.encard_owned (c := c) (fun o ho ↦ ?_) fun v ↦ ?_
    · rw [Bool.and_eq_true, decide_eq_true_iff] at ho
      exact ho.1
    · simp [mem_memberCells, Holds]
  have hsplit : (t.counts c).1
      = (t.owners.countP fun o ↦ o.config = c && (t.memberCells c).contains o.cluster)
        + t.owners.countP fun o ↦ o.config = c && !(t.memberCells c).contains o.cluster := by
    rw [counts, List.countP_eq_countP_filter_add t.owners _
      fun o ↦ (t.memberCells c).contains o.cluster, List.countP_filter, List.countP_filter]
  rw [hothers, hsplit, Nat.cast_add, ← hsum, hcells, List.map_map]
  rfl

namespace Wellformed

variable (h : t.Wellformed) {ids : List ClusterId} (hids : ids.Pairwise (· < ·))
  (hmem : ∀ x, x ∈ ids ↔ ∃ q, t.Holds c x q)

include h hids hmem

theorem encard_sized (k : ℕ) (hk : 0 < k) : {x | {q | t.Holds c x q}.encard = k}.encard
    = ids.countP fun x ↦ t.memberCount c x = k := by
  refine encard_mem_and hids fun x ↦ ?_
  rw [Set.mem_ofPred_eq, h.encard_holds, Nat.cast_inj, hmem, ← memberCount_pos_iff,
    decide_eq_true_iff]
  exact ⟨fun heq ↦ ⟨heq ▸ hk, heq⟩, And.right⟩

theorem mem_histogram_records :
    (k, n) ∈ Sorted.histogram ClusterSize.records (ids.map (t.sizeAt c)) ↔
      0 < k ∧ 0 < n ∧ {x | {q | t.Holds c x q}.encard = k}.encard = n := by
  rw [Sorted.mem_histogram_iff, List.countP_map]
  constructor
  · rintro ⟨hn, heq⟩
    obtain ⟨x, hx, hxk⟩ := List.countP_pos_iff.mp (heq ▸ hn)
    have hk : 0 < k := (of_decide_eq_true hxk : t.memberCount c x = k) ▸
      memberCount_pos_iff.mpr ((hmem x).mp hx)
    exact ⟨hk, hn, (h.encard_sized hids hmem k hk).trans (congrArg Nat.cast heq)⟩
  · rintro ⟨hk, hn, heq⟩
    rw [h.encard_sized hids hmem k hk, Nat.cast_inj] at heq
    exact ⟨hn, heq⟩

theorem mem_histogram_values :
    (k, n) ∈ Sorted.histogram ClusterSize.values (ids.map (t.sizeAt c)) ↔
      0 < n ∧ {x | (∃ q, t.Holds c x q) ∧ {v | t.Owns c x v}.encard = k}.encard = n := by
  have hcount : {x | (∃ q, t.Holds c x q) ∧ {v | t.Owns c x v}.encard = k}.encard
      = ids.countP fun x ↦ t.valueCount c x = k :=
    encard_mem_and hids fun x ↦ by simp [hmem, h.encard_owns]
  rw [Sorted.mem_histogram_iff, List.countP_map, hcount, Nat.cast_inj]
  rfl

/-- The samples are the least clusters of their size. -/
theorem samples_least {named : List ClusterId} (hnamed : (k, named) ∈
      Sorted.collect ClusterSize.records [] ClusterStats.name (ids.map (t.sizeAt c))) :
    named.Pairwise (· < ·) ∧
    (∀ n, (k, n) ∈ Sorted.histogram ClusterSize.records (ids.map (t.sizeAt c)) →
      named.length = min ClusterStats.sampleSize n) ∧
    (∀ x ∈ named, {q | t.Holds c x q}.encard = k) ∧
    ∀ y, {q | t.Holds c y q}.encard = k → y ∉ named → ∀ x ∈ named, x < y := by
  have hsizes : (ids.map (t.sizeAt c)).filter (fun z ↦ z.records = k)
      = (ids.filter fun x ↦ t.memberCount c x = k).map (t.sizeAt c) := List.filter_map
  have hcluster : ((ids.filter fun x ↦ t.memberCount c x = k).map (t.sizeAt c)).map
      ClusterSize.cluster = ids.filter fun x ↦ t.memberCount c x = k :=
    List.map_map.trans (List.map_id _)
  have hascend := hids.filter fun x ↦ t.memberCount c x = k
  have hsized : ∀ x ∈ ids.filter (fun x ↦ t.memberCount c x = k),
      (∃ q, t.Holds c x q) ∧ t.memberCount c x = k := by
    intro x hx
    rw [List.mem_filter, hmem, decide_eq_true_iff] at hx
    exact hx
  rw [Sorted.mem_collect_iff, hsizes, ClusterStats.foldl_name, hcluster] at hnamed
  obtain ⟨hsome, rfl⟩ := hnamed
  refine ⟨hascend.sublist (List.take_sublist _ _), fun n hn ↦ ?_, fun x hx ↦ ?_,
    fun y hy hother x hx ↦ ?_⟩
  · rw [List.length_take, ← List.countP_eq_length_filter]
    rw [Sorted.mem_histogram_iff, List.countP_map] at hn
    rw [← hn.2]
    rfl
  · rw [h.encard_holds, (hsized x (List.mem_of_mem_take hx)).2]
  · rw [h.encard_holds, Nat.cast_inj] at hy
    have hheld : ∃ q, t.Holds c y q := by
      obtain ⟨hx', hk⟩ := hsized x (List.mem_of_mem_take hx)
      rw [← memberCount_pos_iff, hy, ← hk]
      exact memberCount_pos_iff.mpr hx'
    have hmember : y ∈ ids.filter fun x ↦ t.memberCount c x = k :=
      List.mem_filter.mpr ⟨(hmem y).mpr hheld, decide_eq_true hy⟩
    rw [← List.take_append_drop ClusterStats.sampleSize (ids.filter _)] at hascend hmember
    exact (List.pairwise_append.mp hascend).2.2 x hx y
      ((List.mem_append.mp hmember).resolve_left hother)

theorem summarized_ofSizes (hcells : t.memberCells c = ids.map .intact) :
    t.Summarized c (ClusterStats.ofSizes (ids.map (t.sizeAt c))) := by
  have hlength : (ids.map (t.sizeAt c)).length = ids.length := List.length_map _
  have hrecords : (ids.map (t.sizeAt c)).map ClusterSize.records = ids.map (t.memberCount c) :=
    List.map_map
  have hvalues : (ids.map (t.sizeAt c)).map ClusterSize.values = ids.map (t.valueCount c) :=
    List.map_map
  have hmembers := Sorted.sum_histogram ClusterSize.records id (ids.map (t.sizeAt c))
  have howned := Sorted.sum_histogram ClusterSize.values id (ids.map (t.sizeAt c))
  rw [ClusterStats.ofSizes_eq, hlength]
  exact
    { recordsTotal := hrecords ▸ sum_memberCount hids.nodup hcells
      clustersTotal := by
        rw [encard_mem_and (p := fun _ ↦ true) hids fun x ↦ by simp [hmem], List.countP_true]
      sum_recordsPerCluster := (Sorted.sum_snd_histogram _ _).trans hlength
      sum_valuesPerCluster := (Sorted.sum_snd_histogram _ _).trans hlength
      sum_members := hmembers
      sum_values := by
        rw [← h.sum_valueCount hids.nodup hcells, ← hvalues]
        exact congrArg (fun n : ℕ ↦ (n : ℕ∞) + _) howned
      recordsPerCluster_ascend := Sorted.pairwise_keys_collect _ _ _ _
      valuesPerCluster_ascend := Sorted.pairwise_keys_collect _ _ _ _
      mem_recordsPerCluster := fun _ _ ↦ h.mem_histogram_records hids hmem
      mem_valuesPerCluster := fun _ _ ↦ h.mem_histogram_values hids hmem
      samples_keys := (Sorted.keys_collect _ _ _ _).trans (Sorted.keys_collect _ _ _ _).symm
      samples_least := fun _ _ ↦ h.samples_least hids hmem }

end Wellformed

end Tables

/-! ## Worlds that the engine leads to -/

/-- **Statistics agree with the tables.** Whatever the engine has done, a match key has statistics,
and these are consistent. Their totals are the numbers of memberships and of clusters with members.
Both histograms add up to all clusters with members. Weighted by their keys they add up to all
memberships, and to all values but those of clusters without members. The entries of the histograms
are the numbers of clusters with so many members or values, without entries for none. The samples
are the least clusters of each size, in ascending order, as many as there are but at most three. -/
theorem statistics_consistent {s : World} (h : Reachable s) (c : String) :
    ∃ st, s.tables.stats c = .ok st ∧ s.tables.Summarized c st := by
  obtain ⟨ids, hcells, hids, hmem⟩ := h.sound.form.exists_populated c
  exact ⟨_, Tables.stats_eq hcells, h.sound.form.summarized_ofSizes hids hmem hcells⟩

open Sample in
/-- Two records are members of one cluster, which owns all values. -/
theorem bridge_statistics :
    (run blank bridge).tables.stats "isbn"
      = .ok ⟨2, 1, [(3, 1)], [(2, 1)], [(2, [⟨Uuid.ofNat 2⟩])]⟩ ∧
    {x | ∃ q, (run blank bridge).tables.Holds "isbn" x q}.encard = 1 ∧
    {q | (run blank bridge).tables.Holds "isbn" ⟨Uuid.ofNat 2⟩ q}.encard = 2 := by
  have hstats : (run blank bridge).tables.stats "isbn"
      = .ok ⟨2, 1, [(3, 1)], [(2, 1)], [(2, [⟨Uuid.ofNat 2⟩])]⟩ := by
    decide +kernel
  obtain ⟨st, hst, hsummary⟩ := statistics_consistent reachable_bridge "isbn"
  obtain rfl := Except.ok.inj (hstats.symm.trans hst)
  have hsample := hsummary.samples_least 2 _ (.head _)
  exact ⟨hstats, hsummary.clustersTotal, hsample.2.2.1 _ (.head _)⟩

end RecordLinkage
