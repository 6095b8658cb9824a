import Mathlib.Data.Prod.Lex
import Mathlib.Order.Bounds.Basic
import RecordLinkage.Proofs.Clustering.Agreement

/-!
# The view of a cluster is canonical

A view is made of records and values in the order in which somebody found them, and shows the
records of the latest version of each source, sorted, and the values, each once and ascending. What
it shows is determined by what was found and not by the order of finding: records that differ in
source, version or local identifier have one order only. Making a view of what a view shows gives
the same view.

Records that agree in all three are told apart by nothing that the order knows of. They stay in the
order in which they were found, and all of them are shown.
-/

namespace RecordLinkage

/-! ## Sorting by a rank -/

namespace Sorted

variable {α β : Type} [LinearOrder β] {f : α → β} {a : α} {xs : List α}

/-- Insertion passes by lesser elements only. -/
theorem filter_insertBy (f : α → β) (k : β) (a : α) (xs : List α) :
    (insertBy (fun a b ↦ decide (f a < f b)) a xs).filter (fun b ↦ f b = k)
      = (a :: xs).filter fun b ↦ f b = k := by
  induction xs with
  | nil => rfl
  | cons b rest ih =>
    rw [insertBy]
    split_ifs with hba
    · rw [decide_eq_true_iff] at hba
      rw [List.filter_cons, ih]
      by_cases hb : f b = k
      · have ha : f a ≠ k := fun ha ↦ (hb.trans ha.symm).not_lt hba
        simp [hb, ha]
      · simp [List.filter_cons, hb]
    · rfl

/-- Elements of one rank stay in the order in which they came. -/
theorem filter_sortBy (f : α → β) (k : β) (xs : List α) :
    (sortBy (fun a b ↦ decide (f a < f b)) xs).filter (fun a ↦ f a = k)
      = xs.filter fun a ↦ f a = k := by
  induction xs with
  | nil => rfl
  | cons a rest ih =>
    have hstep : sortBy (fun a b ↦ decide (f a < f b)) (a :: rest)
      = insertBy (fun a b ↦ decide (f a < f b)) a
          (sortBy (fun a b ↦ decide (f a < f b)) rest) := rfl
    rw [hstep, filter_insertBy, List.filter_cons, List.filter_cons, ih]

theorem pairwise_sortBy_le (f : α → β) (xs : List α) :
    (sortBy (fun a b ↦ decide (f a < f b)) xs).Pairwise fun a b ↦ f a ≤ f b :=
  (pairwise_sortBy (isWeakOrder_lt f) xs).imp fun hba ↦ by simpa using hba

/-- What is in order stays as it is. -/
theorem sortBy_of_pairwise (h : xs.Pairwise fun a b ↦ f a ≤ f b) :
    sortBy (fun a b ↦ decide (f a < f b)) xs = xs := by
  induction xs with
  | nil => rfl
  | cons a rest ih =>
    obtain ⟨ha, hrest⟩ := List.pairwise_cons.mp h
    have hstep : sortBy (fun a b ↦ decide (f a < f b)) (a :: rest)
      = insertBy (fun a b ↦ decide (f a < f b)) a
          (sortBy (fun a b ↦ decide (f a < f b)) rest) := rfl
    rw [hstep, ih hrest]
    cases rest with
    | nil => rfl
    | cons b rest =>
      have hab : ¬f b < f a := (ha b List.mem_cons_self).not_gt
      simp [insertBy, hab]

/-- Elements of different ranks have one order, in whatever order they came. -/
theorem sortBy_eq_of_perm {ys : List α} (h : ys.Perm xs) (hxs : (xs.map f).Nodup) :
    sortBy (fun a b ↦ decide (f a < f b)) ys = sortBy (fun a b ↦ decide (f a < f b)) xs := by
  have hys : (ys.map f).Nodup := (h.map f).nodup_iff.mpr hxs
  exact ((sortBy_perm ys).trans (h.trans (sortBy_perm xs).symm)).eq_of_pairwise
    (fun a b _ _ hab hba ↦ absurd hba hab.asymm) (pairwise_sortBy_lt hys) (pairwise_sortBy_lt hxs)

end Sorted

/-! ## Records in order -/

namespace Record

/-- What records are ordered by: source, version and local identifier. -/
def rank (r : Record) : String ×ₗ ℤ ×ₗ String :=
  toLex (r.sourceId, toLex (r.sourceVersion, r.localId))

theorem before_eq : before = fun a b ↦ decide (a.rank < b.rank) := by
  funext a b
  rw [Bool.eq_iff_iff, decide_eq_true_iff, rank, rank, Prod.Lex.toLex_lt_toLex,
    Prod.Lex.toLex_lt_toLex, before]
  split_ifs with hsource hversion <;> simp_all

/-- A record has the greatest version that there is of its source. -/
def IsLatestIn (records : List Record) (r : Record) : Prop :=
  IsGreatest {version | ∃ other ∈ records, other.sourceId = r.sourceId ∧
    other.sourceVersion = version} r.sourceVersion

end Record

/-! ## Views -/

namespace ClusterView

variable {cluster : ClusterId} {stamp : Option Datestamp} {records records' : List Record}
  {values values' : List String} {r : Record}

theorem isLatest_iff_isLatestIn (hr : r ∈ records) :
    isLatest records r = true ↔ r.IsLatestIn records := by
  rw [isLatest_iff, Record.IsLatestIn]
  constructor
  · intro h
    refine ⟨⟨r, hr, rfl, rfl⟩, ?_⟩
    rintro version ⟨other, hother, hsource, rfl⟩
    exact h other hother hsource
  · exact fun h other hother hsource ↦ h.2 ⟨other, hother, hsource, rfl⟩

theorem isLatest_perm (h : records'.Perm records) : isLatest records' = isLatest records := by
  funext r
  rw [Bool.eq_iff_iff, isLatest_iff, isLatest_iff]
  simp only [h.mem_iff]

/-- Among the latest records each is the latest. -/
theorem filter_isLatest_of_latest (h : ∀ r ∈ records', isLatest records r = true)
    (hsub : ∀ r ∈ records', r ∈ records) :
    records'.filter (isLatest records') = records' := by
  rw [List.filter_eq_self]
  intro r hr
  rw [isLatest_iff]
  exact fun other hother hsource ↦ isLatest_iff.mp (h r hr) other (hsub other hother) hsource

open Classical in
/-- What a view shows of the records and values that it is made of. -/
structure IsCanonical (records : List Record) (values : List String) (view : ClusterView) :
    Prop where
  /-- The records of the latest versions are shown, each as often as it was found. -/
  latest : view.records.Perm (records.filter fun r ↦ r.IsLatestIn records)
  /-- Every source is represented. -/
  represented : ∀ r ∈ records, ∃ r' ∈ view.records, r'.sourceId = r.sourceId
  /-- A source is shown in one version. -/
  version_eq : ∀ r ∈ view.records, ∀ r' ∈ view.records, r.sourceId = r'.sourceId →
    r.sourceVersion = r'.sourceVersion
  /-- Records ascend. -/
  ascending : view.records.Pairwise fun a b ↦ a.rank ≤ b.rank
  /-- Records that the order does not tell apart are shown as they were found. -/
  stable : ∀ rank, view.records.filter (fun r ↦ r.rank = rank)
    = (records.filter fun r ↦ r.IsLatestIn records).filter fun r ↦ r.rank = rank
  /-- Values ascend, each once. -/
  values_ascending : view.matchValues.Pairwise (· < ·)
  /-- The values are those that were found. -/
  mem_values : ∀ v, v ∈ view.matchValues ↔ v ∈ values

open Classical in
theorem isCanonical_of (cluster : ClusterId) (stamp : Option Datestamp) (records : List Record)
    (values : List String) : (of cluster stamp records values).IsCanonical records values := by
  have hfilter : records.filter (isLatest records)
      = records.filter fun r ↦ r.IsLatestIn records := by
    refine List.filter_congr fun r hr ↦ ?_
    rw [Bool.eq_iff_iff, decide_eq_true_iff]
    exact isLatest_iff_isLatestIn hr
  have hrecords : (of cluster stamp records values).records = Sorted.sortBy
      (fun a b ↦ decide (a.rank < b.rank)) (records.filter fun r ↦ r.IsLatestIn records) := by
    rw [of, hfilter, Record.before_eq]
  refine ⟨?_, fun r hr ↦ ?_, fun r hr r' hr' hsource ↦ ?_, ?_, fun rank ↦ ?_,
    Sorted.pairwise_ofList values, fun v ↦ Sorted.mem_ofList⟩
  · rw [hrecords]
    exact Sorted.sortBy_perm _
  · have hcovers : (of cluster stamp records values).Covers r := covers_of hr
    rcases hcovers with hshown | ⟨later, hlater, hsource, -⟩
    · exact ⟨r, hshown, rfl⟩
    · exact ⟨later, hlater, hsource⟩
  · obtain ⟨hmem, hmax⟩ := mem_records_of.mp hr
    obtain ⟨hmem', hmax'⟩ := mem_records_of.mp hr'
    exact le_antisymm (hmax' r hmem hsource) (hmax r' hmem' hsource.symm)
  · rw [hrecords]
    exact Sorted.pairwise_sortBy_le Record.rank _
  · rw [hrecords, Sorted.filter_sortBy]

/-- Records that differ in what they are ordered by may be found in any order, and values always. -/
theorem of_perm (hrecords : records'.Perm records) (hvalues : values'.Perm values)
    (hranks : (records.map Record.rank).Nodup) :
    of cluster stamp records' values' = of cluster stamp records values := by
  have hlatest : (records'.filter (isLatest records')).Perm
      (records.filter (isLatest records)) := by
    rw [isLatest_perm hrecords]
    exact hrecords.filter _
  have hnodup : ((records.filter (isLatest records)).map Record.rank).Nodup :=
    hranks.sublist (List.filter_sublist.map _)
  rw [of, of, Record.before_eq, Sorted.sortBy_eq_of_perm hlatest hnodup,
    Sorted.ofList_congr fun v ↦ hvalues.mem_iff]

/-- The view of what a view shows is that view. -/
theorem of_of (cluster : ClusterId) (stamp : Option Datestamp) (records : List Record)
    (values : List String) :
    of cluster stamp (of cluster stamp records values).records
      (of cluster stamp records values).matchValues = of cluster stamp records values := by
  set view := of cluster stamp records values with hview
  have hmem : ∀ r ∈ view.records, r ∈ records ∧ isLatest records r = true := fun r hr ↦ by
    rw [isLatest_iff]
    exact mem_records_of.mp hr
  have hlatest : view.records.filter (isLatest view.records) = view.records :=
    filter_isLatest_of_latest (fun r hr ↦ (hmem r hr).2) fun r hr ↦ (hmem r hr).1
  have hsorted : Sorted.sortBy Record.before view.records = view.records := by
    rw [Record.before_eq]
    exact Sorted.sortBy_of_pairwise (isCanonical_of cluster stamp records values).ascending
  rw [of, hlatest, hsorted, hview, of, Sorted.ofList_ofList]

/-- **The view of a cluster is canonical.** It shows exactly the records of the greatest version of
each source, as often as they were found and in ascending order, and the values ascending and each
once. Where no two records agree in source, version and local identifier, no other order of finding
leads to another view; and the view of what it shows is the same view. -/
theorem view_canonical (cluster : ClusterId) (stamp : Option Datestamp) (records : List Record)
    (values : List String) :
    (of cluster stamp records values).IsCanonical records values ∧
    (∀ records' values', records'.Perm records → values'.Perm values →
      (records.map Record.rank).Nodup →
      of cluster stamp records' values' = of cluster stamp records values) ∧
    of cluster stamp (of cluster stamp records values).records
      (of cluster stamp records values).matchValues = of cluster stamp records values :=
  ⟨isCanonical_of cluster stamp records values,
    fun _ _ hrecords hvalues hranks ↦ of_perm hrecords hvalues hranks,
    of_of cluster stamp records values⟩

end ClusterView

namespace Sample

def recordOf (number : ℕ) (source : String) (version : ℤ) (localId : String) : Record :=
  ⟨⟨Uuid.ofNat number⟩, localId, source, version, .null⟩

/-- Two sources, one of them in three versions, of which two lie below zero. -/
def shelf : List Record :=
  [recordOf 4 "B" 1 "b", recordOf 1 "A" (-2) "a", recordOf 2 "A" (-1) "c", recordOf 3 "A" (-1) "a",
    recordOf 5 "A" (-3) "d"]

def shelfView (records : List Record) (values : List String) : ClusterView :=
  .of ⟨Uuid.ofNat 9⟩ (some 0) records values

end Sample

open Sample in
/-- Found in the opposite order, the records and values make the same view. -/
theorem shelf_has_one_view :
    (shelfView shelf ["y", "x", "y"]).IsCanonical shelf ["y", "x", "y"] ∧
    shelfView shelf.reverse ["y", "y", "x"] = shelfView shelf ["y", "x", "y"] ∧
    (shelfView shelf ["y", "x", "y"]).records.map Record.id
      = [⟨Uuid.ofNat 3⟩, ⟨Uuid.ofNat 2⟩, ⟨Uuid.ofNat 4⟩] := by
  have hranks : (shelf.map Record.rank).Nodup := by decide +kernel
  have hvalues : ["y", "y", "x"].Perm ["y", "x", "y"] := by decide
  obtain ⟨hcanonical, hperm, -⟩ :=
    ClusterView.view_canonical ⟨Uuid.ofNat 9⟩ (some 0) shelf ["y", "x", "y"]
  exact ⟨hcanonical, hperm _ _ (List.reverse_perm shelf) hvalues hranks, by decide +kernel⟩

end RecordLinkage
