import Mathlib.Order.Iterate
import RecordLinkage.Proofs.Clustering.Agreement

/-!
# Removing a source, at once or record by record

The records of a source can be deleted by one statement, or each by a statement of its own. What is
left is the same in both cases, except for the datestamps of the clusters that held such records:
one statement marks a cluster as changed once, and several statements mark it once for each record
that it loses. The first of them catches up with the clock, and each further one adds one.

## What is counted

A statement looks for the clusters of the records that it is about to delete, so it matters how many
of the records that are still there a cluster holds. Deleting the record of a key takes one away
from that number, or nothing: a cluster belongs to one match key, under which a record is a member
once.
-/

namespace RecordLinkage

open Tables

/-! ## Advancing again and again -/

namespace Datestamp

/-- Several changes at one time: the first catches up with the clock, the others add one each. -/
theorem iterate_advance {stamp now : Int} {n : ℕ} (h : max (stamp + 1) now + n < Datestamp.limit) :
    (advance · now)^[n + 1] stamp = max (stamp + 1) now + n := by
  induction n with
  | zero =>
    have hmin : min (stamp + 1) Datestamp.limit = stamp + 1 := by omega
    rw [Function.iterate_one, advance, hmin, Nat.cast_zero, add_zero]
  | succ n ih =>
    have hlast := ih (by omega)
    have hmin : min (max (stamp + 1) now + n + 1) Datestamp.limit
        = max (stamp + 1) now + n + 1 := min_eq_left (by omega)
    have hmax : max (max (stamp + 1) now + n + 1) now = max (stamp + 1) now + n + 1 :=
      max_eq_left (by omega)
    rw [Function.iterate_succ_apply', hlast, advance, hmin, hmax, Nat.cast_succ, add_assoc]

end Datestamp

namespace Tables

variable {t : Tables} {fits fits' : RecordRow → Bool} {now : Datestamp} {x : ClusterId}
  {key : RecordKey} {keys : List RecordKey}

/-! ## The members that are left -/

/-- A record that is looked up by its identifier fits or not. -/
theorem Wellformed.any_fits (h : t.Wellformed) {row : RecordRow} {q : RecordId}
    (hrow : row ∈ t.records) (hid : row.id = .intact q) (fits : RecordRow → Bool) :
    (t.records.any fun r ↦ r.id = .intact q && fits r) = fits row := by
  rw [Bool.eq_iff_iff, List.any_eq_true]
  constructor
  · rintro ⟨r, hr, hfits⟩
    rw [Bool.and_eq_true, decide_eq_true_iff] at hfits
    rw [← h.record_ext hr hrow (hfits.1.trans hid.symm)]
    exact hfits.2
  · exact fun hfits ↦ ⟨row, hrow, by rw [hid, decide_eq_true rfl, hfits]; rfl⟩

theorem Wellformed.recordRow?_of_mem (h : t.Wellformed) {row : RecordRow} {q : RecordId}
    (hrow : row ∈ t.records) (hid : row.id = .intact q) : t.recordRow? q = some row := by
  obtain ⟨row', hfound⟩ := Option.isSome_iff_exists.mp (stores_iff.mp ⟨row, hrow, hid⟩)
  obtain ⟨hrow', hid'⟩ := mem_of_recordRow? hfound
  rw [hfound, h.record_ext hrow' hrow (hid'.trans hid.symm)]

/-- A cluster loses those members that are removed. -/
theorem Wellformed.memberRows_removeRecords (h : t.Wellformed) (fits : RecordRow → Bool)
    (x : ClusterId) :
    (t.removeRecords fits).memberRows x = (t.memberRows x).filter fun r ↦ !fits r := by
  have hmembers : (t.removeRecords fits).members = t.members.filter fun m ↦
      !t.records.any fun r ↦ r.id = .intact m.record && fits r := rfl
  have hform := h.removeRecords fits
  rw [memberRows, memberRows, hmembers, List.filter_filter, List.filter_filterMap,
    List.filterMap_filter, List.filterMap_filter]
  refine List.filterMap_congr fun m hm ↦ ?_
  obtain ⟨row, hrow, hid⟩ := h.member_record m hm
  rw [h.any_fits hrow hid, h.recordRow?_of_mem hrow hid, Option.filter_some]
  rcases hfits : fits row with - | -
  · have hstays : row ∈ (t.removeRecords fits).records :=
      List.mem_filter.mpr ⟨hrow, by rw [hfits]; rfl⟩
    rw [hform.recordRow?_of_mem hstays hid]
    simp
  · simp

/-- A cluster is marked as changed when it is to lose a member. -/
theorem Wellformed.holdsRecord_eq (h : t.Wellformed) (fits : RecordRow → Bool) (x : ClusterId) :
    t.holdsRecord fits x = (t.memberRows x).any fits := by
  rw [holdsRecord, Bool.eq_iff_iff, List.any_eq_true, List.any_eq_true]
  constructor
  · rintro ⟨m, hm, hfits⟩
    obtain ⟨row, hrow, hid⟩ := h.member_record m hm
    rw [h.any_fits hrow hid, Bool.and_eq_true] at hfits
    exact ⟨row, List.mem_filterMap.mpr ⟨m, List.mem_filter.mpr ⟨hm, hfits.1⟩,
      h.recordRow?_of_mem hrow hid⟩, hfits.2⟩
  · rintro ⟨row, hrow, hfits⟩
    obtain ⟨m, hm, hfound⟩ := List.mem_filterMap.mp hrow
    obtain ⟨hm, hx⟩ := List.mem_filter.mp hm
    obtain ⟨hrow, hid⟩ := mem_of_recordRow? hfound
    exact ⟨m, hm, by rw [h.any_fits hrow hid, hx, hfits]; rfl⟩

/-- A key belongs to one record at most. -/
theorem Wellformed.countP_key_le_one (h : t.Wellformed) {rows : List RecordRow}
    (hnodup : rows.Nodup) (hrows : ∀ row ∈ rows, row ∈ t.records) (key : RecordKey) :
    (rows.countP fun r ↦ r.key = key) ≤ 1 := by
  have hkeys : (rows.map RecordRow.key).Nodup := hnodup.map_on fun a ha b hb hab ↦
    List.inj_on_of_nodup_map h.recordKey_nodup (hrows a ha) (hrows b hb) hab
  have hone := List.nodup_iff_count_le_one.mp hkeys key
  rw [List.count, List.countP_map] at hone
  exact hone

/-! ## Removing in steps -/

/-- What is left when records were removed, with given marks. -/
def remaining (t : Tables) (fits : RecordRow → Bool) (marks : List ClusterMark) : Tables :=
  { t.removeRecords fits with marks }

/-- Records that fit in one way or another may go in two steps. -/
theorem remaining_remaining (t : Tables) (fits fits' : RecordRow → Bool)
    (marks marks' : List ClusterMark) : (t.remaining fits marks).remaining fits' marks'
      = t.remaining (fun r ↦ fits r || fits' r) marks' := by
  have hmembers : ∀ m : MemberRow,
      (!((t.records.filter fun r ↦ !fits r).any fun r ↦ r.id = .intact m.record && fits' r) &&
          !(t.records.any fun r ↦ r.id = .intact m.record && fits r))
        = !(t.records.any fun r ↦ r.id = .intact m.record && (fits r || fits' r)) := by
    intro m
    rw [Bool.eq_iff_iff]
    simp only [Bool.and_eq_true, Bool.not_eq_true', List.any_eq_false, List.mem_filter,
      decide_eq_true_eq, Bool.or_eq_true]
    grind
  have hrecords : ∀ r, (!fits' r && !fits r) = !(fits r || fits' r) := by
    intro r
    rw [Bool.not_or, Bool.and_comm]
  simp only [remaining, removeRecords, List.filter_filter, hmembers, hrecords]

/-- The mark of a cluster that has changed once for each member that fits. -/
def worn (t : Tables) (fits : RecordRow → Bool) (now : Datestamp) (m : ClusterMark) : ClusterMark :=
  { m with
    datestamp := (Datestamp.advance · now)^[(t.memberRows m.cluster).countP fits] m.datestamp }

/-- What is left when records were removed, and their clusters marked as changed for each. -/
def wear (t : Tables) (fits : RecordRow → Bool) (now : Datestamp) : Tables :=
  t.remaining fits (t.marks.map (t.worn fits now))

theorem wear_none (t : Tables) (now : Datestamp) : t.wear (fun _ ↦ false) now = t := by
  have hworn : t.worn (fun _ ↦ false) now = id := by
    funext m
    rw [worn, show (t.memberRows m.cluster).countP (fun _ ↦ false) = 0 from by simp]
    rfl
  have hany : (t.records.any fun _ ↦ false) = false :=
    List.any_eq_false.mpr fun _ _ ↦ Bool.false_ne_true
  simp [wear, remaining, removeRecords, hworn, hany]

theorem countP_or {α : Type} (p q : α → Bool) (rows : List α) :
    (rows.countP fun r ↦ p r || q r) = rows.countP p + (rows.filter fun r ↦ !p r).countP q := by
  induction rows with
  | nil => rfl
  | cons a rest ih =>
    rcases hp : p a with - | - <;> rcases hq : q a with - | - <;> simp [hp, hq, ih] <;> omega

/-- **Clusters change as often in two steps as in one.** The members that a cluster has lost in the
first step do not count in the second one. -/
theorem Wellformed.wear_wear (h : t.Wellformed) (fits fits' : RecordRow → Bool) (now : Datestamp) :
    (t.wear fits now).wear fits' now = t.wear (fun r ↦ fits r || fits' r) now := by
  have hrows : ∀ x, (t.wear fits now).memberRows x = (t.memberRows x).filter fun r ↦ !fits r :=
    h.memberRows_removeRecords fits
  have hworn : ∀ m, (t.wear fits now).worn fits' now (t.worn fits now m)
      = t.worn (fun r ↦ fits r || fits' r) now m := by
    intro m
    simp only [worn, hrows, countP_or]
    rw [Nat.add_comm, Function.iterate_add_apply]
  have hmarks : (t.wear fits now).marks.map ((t.wear fits now).worn fits' now)
      = t.marks.map (t.worn (fun r ↦ fits r || fits' r) now) := by
    change (t.marks.map (t.worn fits now)).map _ = _
    rw [List.map_map]
    exact List.map_congr_left fun m _ ↦ hworn m
  rw [wear, hmarks, wear, remaining_remaining, wear]

theorem Wellformed.wear (h : t.Wellformed) (fits : RecordRow → Bool) (now : Datestamp) :
    (t.wear fits now).Wellformed := by
  refine { h.removeRecords fits with mark_nodup := ?_, mark_config := fun m hm ↦ ?_ }
  · exact nodup_map_map h.mark_nodup fun m ↦ rfl
  · obtain ⟨m₀, hm₀, rfl⟩ := List.mem_map.mp hm
    exact h.mark_config m₀ hm₀

/-! ## Key by key -/

/-- Deletes the records of some keys, one after the other. The answer is how many there were. -/
def deleteEach (t : Tables) (now : Datestamp) : List RecordKey → ℕ × Tables
  | [] => (0, t)
  | key :: rest =>
    let first := t.deleteRecord key now
    let others := first.2.deleteEach now rest
    (first.1.toNat + others.1, others.2)

/-- No cluster has a record among its members twice. -/
def Tidy (t : Tables) : Prop := ∀ m ∈ t.marks, (t.memberRows m.cluster).Nodup

theorem Sound.tidy (h : t.Sound) : t.Tidy := fun m hm ↦ h.nodup_memberRows ⟨m, hm, rfl, rfl⟩

theorem Wellformed.tidy_wear (h : t.Wellformed) (htidy : t.Tidy) (fits : RecordRow → Bool)
    (now : Datestamp) : (t.wear fits now).Tidy := by
  intro m hm
  obtain ⟨m₀, hm₀, rfl⟩ := List.mem_map.mp hm
  have hrows : (t.wear fits now).memberRows m₀.cluster
      = (t.memberRows m₀.cluster).filter fun r ↦ !fits r := h.memberRows_removeRecords fits _
  exact hrows ▸ (htidy m₀ hm₀).filter _

/-- A cluster changes once when it loses the record of a key, and otherwise not at all. -/
theorem Wellformed.advanced_eq_worn (h : t.Wellformed) {m : ClusterMark}
    (hnodup : (t.memberRows m.cluster).Nodup) (key : RecordKey) (now : Datestamp) :
    advanced (t.holdsRecord fun r ↦ r.key = key) now m = t.worn (fun r ↦ r.key = key) now m := by
  have hone := h.countP_key_le_one hnodup (fun _ ↦ mem_of_mem_memberRows) key
  rw [advanced, worn, h.holdsRecord_eq]
  rcases Nat.le_one_iff_eq_zero_or_eq_one.mp hone with hnone | hsome
  · have hany : ((t.memberRows m.cluster).any fun r ↦ r.key = key) = false := by
      simpa using hnone
    rw [hnone, hany]
    rfl
  · have hany : ((t.memberRows m.cluster).any fun r ↦ r.key = key) = true := by
      rw [List.any_eq_true, ← List.countP_pos_iff, hsome]
      exact Nat.one_pos
    rw [hsome, hany]
    rfl

theorem Wellformed.deleteRecord_eq (h : t.Wellformed) (htidy : t.Tidy) (key : RecordKey)
    (now : Datestamp) : (t.deleteRecord key now).1.toNat = (t.records.countP fun r ↦ r.key = key) ∧
      (t.deleteRecord key now).2 = t.wear (fun r ↦ r.key = key) now := by
  have hone := h.countP_key_le_one h.recordKey_nodup.of_map (fun _ ↦ id) key
  constructor
  · change (decide (0 < t.records.countP fun r ↦ decide (r.key = key))).toNat = _
    rcases Nat.le_one_iff_eq_zero_or_eq_one.mp hone with hnone | hsome
    · rw [hnone]
      rfl
    · rw [hsome]
      rfl
  · rw [Tables.wear, ← List.map_congr_left fun m hm ↦ h.advanced_eq_worn (htidy m hm) key now]
    rfl

/-- **What is left when records are deleted one by one**, and how many there were. -/
theorem Wellformed.deleteEach_eq (h : t.Wellformed) (htidy : t.Tidy) (now : Datestamp)
    (keys : List RecordKey) :
    t.deleteEach now keys
      = (t.records.countP fun r ↦ r.key ∈ keys, t.wear (fun r ↦ r.key ∈ keys) now) := by
  induction keys generalizing t with
  | nil =>
    have hnone : ∀ r : RecordRow, decide (r.key ∈ ([] : List RecordKey)) = false := by simp
    simp only [hnone, wear_none, deleteEach]
    simp
  | cons key rest ih =>
    have hcons : ∀ r : RecordRow, decide (r.key ∈ key :: rest)
        = (decide (r.key = key) || decide (r.key ∈ rest)) := by simp
    obtain ⟨hfound, htables⟩ := h.deleteRecord_eq htidy key now
    have hothers := ih (h.wear (fun r ↦ r.key = key) now) (h.tidy_wear htidy _ now)
    rw [h.wear_wear] at hothers
    simp only [hcons, deleteEach, htables, hfound, hothers, countP_or]
    rfl

/-! ## Both ways -/

/-- Which of the stored records fit is all that matters. -/
theorem Wellformed.remaining_congr (h : t.Wellformed) (hfits : ∀ r ∈ t.records, fits r = fits' r)
    (marks : List ClusterMark) : t.remaining fits marks = t.remaining fits' marks := by
  have hrecords : (t.removeRecords fits).records = (t.removeRecords fits').records :=
    List.filter_congr fun r hr ↦ by rw [hfits r hr]
  have hmembers : (t.removeRecords fits).members = (t.removeRecords fits').members := by
    refine List.filter_congr fun m hm ↦ ?_
    obtain ⟨row, hrow, hid⟩ := h.member_record m hm
    rw [h.any_fits hrow hid, h.any_fits hrow hid, hfits row hrow]
  simp only [remaining, hrecords, hmembers]
  rfl

theorem worn_congr (hfits : ∀ r ∈ t.records, fits r = fits' r) (now : Datestamp) (m : ClusterMark) :
    t.worn fits now m = t.worn fits' now m := by
  have hcount : (t.memberRows m.cluster).countP fits = (t.memberRows m.cluster).countP fits' :=
    List.countP_congr fun r hr ↦ by rw [hfits r (mem_of_mem_memberRows hr)]
  rw [worn, worn, hcount]

/-- **Deleting one by one removes what one statement removes**, if the keys are those of the
records that fit. -/
theorem Wellformed.deleteEach_of_keys (h : t.Wellformed) (htidy : t.Tidy)
    (hfits : ∀ r ∈ t.records, fits r = decide (r.key ∈ keys)) (now : Datestamp) :
    t.deleteEach now keys
      = (t.records.countP fits, t.remaining fits (t.marks.map (t.worn fits now))) := by
  have hcount : t.records.countP fits = t.records.countP fun r ↦ r.key ∈ keys :=
    List.countP_congr fun r hr ↦ by rw [hfits r hr]
  rw [h.deleteEach_eq htidy, Tables.wear, hcount, h.remaining_congr hfits,
    List.map_congr_left fun m _ ↦ worn_congr hfits now m]

/-- A cluster without members that fit is left as it is. -/
theorem Wellformed.advanced_of_countP_eq_zero (h : t.Wellformed) {m : ClusterMark}
    (hnone : (t.memberRows m.cluster).countP fits = 0) (now : Datestamp) :
    advanced (t.holdsRecord fits) now m = m ∧ t.worn fits now m = m := by
  have hany : (t.memberRows m.cluster).any fits = false := by
    rw [List.any_eq_false]
    exact List.countP_eq_zero.mp hnone
  rw [advanced, worn, h.holdsRecord_eq, hany, hnone]
  exact ⟨rfl, rfl⟩

/-- Any other cluster changes once, or as often as it has members that fit. -/
theorem Wellformed.advanced_of_countP_eq_succ (h : t.Wellformed) {m : ClusterMark} {k : ℕ}
    (hsome : (t.memberRows m.cluster).countP fits = k + 1)
    (hrange : max (m.datestamp + 1) now + k < Datestamp.limit) :
    advanced (t.holdsRecord fits) now m = { m with datestamp := max (m.datestamp + 1) now } ∧
      t.worn fits now m = { m with datestamp := max (m.datestamp + 1) now + k } := by
  have hany : (t.memberRows m.cluster).any fits = true := by
    rw [List.any_eq_true, ← List.countP_pos_iff, hsome]
    exact Nat.succ_pos k
  have hfirst : max (m.datestamp + 1) now + (0 : ℕ) < Datestamp.limit :=
    (add_le_add_right (Nat.cast_le.mpr (Nat.zero_le k)) _).trans_lt hrange
  have hstep := Datestamp.iterate_advance hfirst
  rw [Function.iterate_one, Nat.cast_zero, add_zero] at hstep
  rw [advanced, worn, h.holdsRecord_eq, hany, hsome, Datestamp.iterate_advance hrange, if_pos rfl,
    hstep]
  exact ⟨rfl, rfl⟩

end Tables

variable {s : World} {source : SourceId} {now : Datestamp} {keys : List RecordKey}

/-- **A source is removed at once as it is record by record.** In a world that the engine leads to,
delete the records of a source by one statement, or by one statement each, at the same time and in
any order. The same records, memberships and owners are left, and the answer of the one is how many
of the others have found a record. Clusters that have no member from the source keep their marks
either way. The others catch up with the clock, and where they had several such members, each
further one has advanced the datestamp by one more, as long as it stays a 64-bit number. -/
theorem source_removal_agrees (h : Reachable s) (hkeys : ∀ key ∈ keys, key.source = source)
    (hall : ∀ row ∈ s.tables.records, row.key.source = source → row.key ∈ keys) :
    let whole := s.tables.deleteSource source now
    let single := s.tables.deleteEach now keys
    single.1 = whole.1 ∧ single.2.records = whole.2.records ∧
      single.2.members = whole.2.members ∧ single.2.owners = whole.2.owners ∧
      single.2.matchKeys = whole.2.matchKeys ∧
      whole.2.marks.map ClusterMark.cluster = s.tables.marks.map ClusterMark.cluster ∧
      single.2.marks.map ClusterMark.cluster = s.tables.marks.map ClusterMark.cluster ∧
      ∀ m ∈ s.tables.marks,
        ((s.tables.memberRows m.cluster).countP (fun r ↦ r.key.source = source) = 0 →
          m ∈ whole.2.marks ∧ m ∈ single.2.marks) ∧
        ∀ k : ℕ, (s.tables.memberRows m.cluster).countP (fun r ↦ r.key.source = source) = k + 1 →
          max (m.datestamp + 1) now + k < Datestamp.limit →
          { m with datestamp := max (m.datestamp + 1) now } ∈ whole.2.marks ∧
          { m with datestamp := max (m.datestamp + 1) now + k } ∈ single.2.marks := by
  intro whole single
  have hform := h.sound.form
  have hfits : ∀ r ∈ s.tables.records, decide (r.key.source = source) = decide (r.key ∈ keys) :=
    fun r hr ↦ decide_eq_decide.mpr ⟨hall r hr, hkeys _⟩
  have hsingle : single = _ := hform.deleteEach_of_keys h.sound.tidy hfits now
  have hwhole : whole.2.marks = s.tables.marks.map
      (advanced (s.tables.holdsRecord fun r ↦ r.key.source = source) now) := rfl
  have hmarks : single.2.marks
      = s.tables.marks.map (s.tables.worn (fun r ↦ r.key.source = source) now) := by
    rw [hsingle]
    rfl
  rw [hwhole, hmarks, List.map_map, List.map_map]
  refine ⟨by rw [hsingle]; rfl, by rw [hsingle]; rfl, by rw [hsingle]; rfl, by rw [hsingle]; rfl,
    by rw [hsingle]; rfl, List.map_congr_left fun m _ ↦ advanced_cluster .., rfl,
    fun m hm ↦ ⟨fun hnone ↦ ?_, fun k hsome hrange ↦ ?_⟩⟩
  · obtain ⟨hone, heach⟩ := hform.advanced_of_countP_eq_zero hnone now
    exact ⟨List.mem_map.mpr ⟨m, hm, hone⟩, List.mem_map.mpr ⟨m, hm, heach⟩⟩
  · obtain ⟨hone, heach⟩ := hform.advanced_of_countP_eq_succ hsome hrange
    exact ⟨List.mem_map.mpr ⟨m, hm, hone⟩, List.mem_map.mpr ⟨m, hm, heach⟩⟩

open Sample in
/-- Two records of one cluster are deleted while the clock stands back. Deleting the later one first
leaves the cluster dated one later than deleting their source. -/
theorem bridge_removed_twice :
    let whole := (run blank bridge).tables.deleteSource library 3
    let single := (run blank bridge).tables.deleteEach 3 [keyOf "b", keyOf "a"]
    single.1 = 2 ∧ whole.1 = 2 ∧ single.2.records = whole.2.records ∧
      (⟨⟨Uuid.ofNat 2⟩, "isbn", 7⟩ : ClusterMark) ∈ whole.2.marks ∧
      (⟨⟨Uuid.ofNat 2⟩, "isbn", 8⟩ : ClusterMark) ∈ single.2.marks := by
  have hkeys : ∀ key ∈ [keyOf "b", keyOf "a"], key.source = library := by decide
  have hall : ∀ row ∈ (run blank bridge).tables.records, row.key.source = library →
      row.key ∈ [keyOf "b", keyOf "a"] := by
    decide +kernel
  have hmark : (⟨⟨Uuid.ofNat 2⟩, "isbn", 6⟩ : ClusterMark) ∈ (run blank bridge).tables.marks := by
    decide +kernel
  have hmembers : ((run blank bridge).tables.memberRows ⟨Uuid.ofNat 2⟩).countP
      (fun r ↦ r.key.source = library) = 1 + 1 := by
    decide +kernel
  have hcount : ((run blank bridge).tables.deleteSource library 3).1 = 2 := by decide +kernel
  obtain ⟨hsame, hrecords, -, -, -, -, -, hmarks⟩ :=
    @source_removal_agrees _ _ 3 _ reachable_bridge hkeys hall
  obtain ⟨hwhole, hsingle⟩ := (hmarks _ hmark).2 1 hmembers (by decide)
  exact ⟨hsame.trans hcount, hcount, hrecords, hwhole, hsingle⟩

end RecordLinkage
