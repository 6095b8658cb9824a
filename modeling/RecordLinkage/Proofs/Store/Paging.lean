import Mathlib.Data.List.Forall2
import Mathlib.Data.List.Sort
import RecordLinkage.Proofs.Order
import RecordLinkage.Proofs.Store.Views

/-!
# Pages of records

All records are read page by page: each page has the first records after the last one of the page
before, in the order of identifiers. While records neither come nor go, the pages one after the
other are all records, each once, in ascending order. A page is read as a whole: where one payload
cannot be read, none is.

Rows are sorted by the cells that hold their identifiers. Cells of any text have no order that would
be good for much, but in well-formed tables every cell holds an identifier, and these are ordered as
numbers.
-/

namespace RecordLinkage

/-! ## Sorting -/

namespace Sorted

variable {α : Type} {before before' : α → α → Bool}

theorem insertBy_congr {a : α} {xs : List α} (h : ∀ b ∈ xs, before b a = before' b a) :
    insertBy before a xs = insertBy before' a xs := by
  induction xs with
  | nil => rfl
  | cons b rest ih =>
    obtain ⟨hb, hrest⟩ := List.forall_mem_cons.mp h
    rw [insertBy, insertBy, hb, ih hrest]

/-- Sorting looks at the elements of the list only. -/
theorem sortBy_congr {xs : List α} (h : ∀ a ∈ xs, ∀ b ∈ xs, before b a = before' b a) :
    sortBy before xs = sortBy before' xs := by
  induction xs with
  | nil => rfl
  | cons a rest ih =>
    have hrest : sortBy before rest = sortBy before' rest :=
      ih fun b hb c hc ↦ h b (.tail _ hb) c (.tail _ hc)
    change insertBy before a (sortBy before rest) = insertBy before' a (sortBy before' rest)
    rw [hrest]
    exact insertBy_congr fun b hb ↦ h a (.head _) b (.tail _ (mem_sortBy.mp hb))

theorem isWeakOrder_lt {β : Type} [LinearOrder β] (f : α → β) :
    IsWeakOrder fun a b ↦ decide (f a < f b) where
  asymm hab hba := by
    rw [decide_eq_true_iff] at hab hba
    exact hab.asymm hba
  trans hab hbc hac := by
    rw [decide_eq_true_iff, not_lt] at hab hbc
    rw [decide_eq_true_iff] at hac
    exact hac.not_ge (hab.trans hbc)

section Ranked

variable {β : Type} [LinearOrder β] {f : α → β} {xs : List α}

/-- Elements of different ranks ascend when they are sorted. -/
theorem pairwise_sortBy_lt (hxs : (xs.map f).Nodup) :
    (sortBy (fun a b ↦ decide (f a < f b)) xs).Pairwise fun a b ↦ f a < f b := by
  have hperm : (sortBy (fun a b ↦ decide (f a < f b)) xs).Perm xs := sortBy_perm xs
  have hne := List.pairwise_map.mp ((hperm.map f).nodup_iff.mpr hxs)
  refine ((pairwise_sortBy (isWeakOrder_lt f) xs).and hne).imp fun {a b} hab ↦ ?_
  rw [decide_eq_true_iff, not_lt] at hab
  exact hab.1.lt_of_ne hab.2

/-- It does not matter whether elements are left out before or after they are sorted. -/
theorem sortBy_filter (hxs : (xs.map f).Nodup) (p : α → Bool) :
    sortBy (fun a b ↦ decide (f a < f b)) (xs.filter p)
      = (sortBy (fun a b ↦ decide (f a < f b)) xs).filter p := by
  have hperm : (sortBy (fun a b ↦ decide (f a < f b)) xs).Perm xs := sortBy_perm xs
  have hperm' : (sortBy (fun a b ↦ decide (f a < f b)) (xs.filter p)).Perm (xs.filter p) :=
    sortBy_perm _
  have hfewer : ((xs.filter p).map f).Nodup := hxs.sublist (List.filter_sublist.map f)
  exact (hperm'.trans (hperm.symm.filter p)).eq_of_pairwise
    (fun a b _ _ hab hba ↦ absurd hba hab.asymm) (pairwise_sortBy_lt hfewer)
    ((pairwise_sortBy_lt hxs).sublist List.filter_sublist)

end Ranked

end Sorted

/-! ## Rows in order -/

namespace RecordRow

/-- The identifier of a row as a number. -/
def number (r : RecordRow) : ℕ :=
  match r.id with
  | .intact id => id.toNat
  | .other _ => 0

theorem number_eq {r : RecordRow} {id : RecordId} (h : r.id = .intact id) :
    r.number = id.toNat := by
  rw [number, h]

theorem before_eq {a b : RecordRow} (ha : ∃ id, a.id = .intact id) (hb : ∃ id, b.id = .intact id) :
    a.id.before b.id = decide (a.number < b.number) := by
  obtain ⟨x, hx⟩ := ha
  obtain ⟨y, hy⟩ := hb
  rw [number_eq hx, number_eq hy, hx, hy]
  rfl

end RecordRow

namespace Tables

variable {t : Tables}

/-- Rows, in the order of identifiers. -/
def ascending (rows : List RecordRow) : List RecordRow :=
  Sorted.sortBy (fun a b ↦ a.id.before b.id) rows

theorem mem_ascending {row : RecordRow} {rows : List RecordRow} :
    row ∈ ascending rows ↔ row ∈ rows := Sorted.mem_sortBy

theorem ascending_perm (rows : List RecordRow) : (ascending rows).Perm rows :=
  Sorted.sortBy_perm rows

theorem nodup_number {rows : List RecordRow} (hintact : ∀ r ∈ rows, ∃ id, r.id = .intact id)
    (hnodup : (rows.map RecordRow.id).Nodup) : (rows.map RecordRow.number).Nodup := by
  refine hnodup.of_map.map_on fun a ha b hb heq ↦ List.inj_on_of_nodup_map hnodup ha hb ?_
  obtain ⟨x, hx⟩ := hintact a ha
  obtain ⟨y, hy⟩ := hintact b hb
  rw [RecordRow.number_eq hx, RecordRow.number_eq hy] at heq
  rw [hx, hy, RecordId.toNat_injective heq]

theorem ascending_eq {rows : List RecordRow} (hintact : ∀ r ∈ rows, ∃ id, r.id = .intact id) :
    ascending rows = Sorted.sortBy (fun a b ↦ decide (a.number < b.number)) rows :=
  Sorted.sortBy_congr fun a ha b hb ↦ RecordRow.before_eq (hintact b hb) (hintact a ha)

theorem pairwise_ascending {rows : List RecordRow} (hintact : ∀ r ∈ rows, ∃ id, r.id = .intact id)
    (hnodup : (rows.map RecordRow.id).Nodup) :
    (ascending rows).Pairwise fun a b ↦ a.number < b.number := by
  rw [ascending_eq hintact]
  exact Sorted.pairwise_sortBy_lt (nodup_number hintact hnodup)

/-- It does not matter whether rows are left out before or after they are sorted. -/
theorem ascending_filter {rows : List RecordRow} (hintact : ∀ r ∈ rows, ∃ id, r.id = .intact id)
    (hnodup : (rows.map RecordRow.id).Nodup) (p : RecordRow → Bool) :
    ascending (rows.filter p) = (ascending rows).filter p := by
  have hfewer : ∀ r ∈ rows.filter p, ∃ id, r.id = .intact id := fun r hr ↦
    hintact r (List.mem_of_mem_filter hr)
  rw [ascending_eq hintact, ascending_eq hfewer,
    Sorted.sortBy_filter (nodup_number hintact hnodup)]

/-! ## Reading rows -/

/-- The payload of a row can be read. -/
def Readable (row : RecordRow) : Prop := ∃ payload, Json.parse? row.payload = some payload

/-- A record that a row of well-formed tables tells, as far as its payload can be read. -/
structure Tells (row : RecordRow) (record : Record) : Prop where
  id : row.id = .intact record.id
  read : ∀ payload, Json.parse? row.payload = some payload →
    row.read = .ok record ∧ record.payload = payload

theorem Wellformed.exists_tells (h : t.Wellformed) {row : RecordRow} (hrow : row ∈ t.records) :
    ∃ record, Tells row record := by
  obtain ⟨id, hid⟩ := h.record_intact row hrow
  refine ⟨⟨id, row.key.localId, row.key.source.text, row.key.version,
    (Json.parse? row.payload).getD .null⟩, hid, fun payload hpayload ↦ ⟨?_, ?_⟩⟩
  · rw [RecordRow.read, hid, Cell.read_intact, hpayload]
    rfl
  · rw [hpayload, Option.getD_some]

theorem Wellformed.exists_reading (h : t.Wellformed) :
    ∃ read : RecordRow → Record, ∀ row ∈ t.records, Tells row (read row) := by
  choose! read hread using fun row (hrow : row ∈ t.records) ↦ h.exists_tells hrow
  exact ⟨read, hread⟩

theorem Tells.eq_of_read {row : RecordRow} {record record' : Record} (h : Tells row record)
    (hread : row.read = .ok record') : record' = record := by
  rcases hparse : Json.parse? row.payload with _ | payload
  · rw [RecordRow.read, h.id, Cell.read_intact, hparse] at hread
    cases hread
  · rw [(h.read payload hparse).1] at hread
    exact (Except.ok.inj hread).symm

/-- Rows with payloads that can be read are read as the records that they tell. -/
theorem mapM_read_eq_map {rows : List RecordRow} {f : RecordRow → Record}
    (h : ∀ row ∈ rows, Tells row (f row)) (hreadable : ∀ row ∈ rows, Readable row) :
    rows.mapM RecordRow.read = .ok (rows.map f) := by
  rw [mapM_ok_iff, List.forall₂_map_right_iff, List.forall₂_same]
  intro row hrow
  obtain ⟨payload, hpayload⟩ := hreadable row hrow
  exact ((h row hrow).read payload hpayload).1

/-- One payload that cannot be read is enough for rows not to be read. -/
theorem mapM_read_eq_error {rows : List RecordRow} {f : RecordRow → Record}
    (h : ∀ row ∈ rows, Tells row (f row)) (hreadable : ¬∀ row ∈ rows, Readable row) :
    rows.mapM RecordRow.read = .error .invalidPayload := by
  induction rows with
  | nil => exact absurd (fun _ hrow ↦ absurd hrow List.not_mem_nil) hreadable
  | cons row rest ih =>
    rw [List.forall_mem_cons] at h hreadable
    rw [List.mapM_cons]
    rcases hparse : Json.parse? row.payload with _ | payload
    · have hread : row.read = .error .invalidPayload := by
        rw [RecordRow.read, h.1.id, Cell.read_intact, hparse]
        rfl
      rw [hread]
      rfl
    · have hrest : ¬∀ row ∈ rest, Readable row := fun hall ↦ hreadable ⟨⟨payload, hparse⟩, hall⟩
      rw [(h.1.read payload hparse).1, ih h.2 hrest]
      rfl

/-! ## Pages -/

theorem text_ne_empty (id : RecordId) : id.text ≠ "" := by
  intro h
  have hchars : id.uuid.chars = [] := by
    simpa [RecordId.text, Uuid.text] using congrArg String.toList h
  simp [Uuid.chars, Uuid.grouped] at hchars

theorem isAfter_some (place : RecordId) {row : RecordRow} (h : ∃ id, row.id = .intact id) :
    isAfter (some place) row = decide (place.toNat < row.number) := by
  obtain ⟨id, hid⟩ := h
  rw [isAfter, RecordRow.number_eq hid, hid]
  rfl

/-- The place after some rows. -/
def placeAfter (f : RecordRow → Record) (done : List RecordRow) : Option RecordId :=
  done.getLast?.map fun row ↦ (f row).id

/-- **A page begins where the last one ended.** -/
theorem pageRows_eq (h : t.Wellformed) {f : RecordRow → Record}
    (hname : ∀ row ∈ t.records, row.id = .intact (f row).id) {done todo : List RecordRow}
    (hsplit : ascending t.records = done ++ todo) (limit : ℕ) :
    t.pageRows (placeAfter f done) limit = todo.take limit := by
  have hmem : ∀ row ∈ done ++ todo, row.id = .intact (f row).id := fun row hrow ↦
    hname row (mem_ascending.mp (hsplit ▸ hrow))
  have horder := pairwise_ascending h.record_intact h.recordId_nodup
  rw [hsplit] at horder
  have hafter : (done ++ todo).filter (isAfter (placeAfter f done)) = todo := by
    rcases List.eq_nil_or_concat done with rfl | ⟨before, last, rfl⟩
    · refine List.filter_eq_self.mpr fun row hrow ↦ ?_
      rw [placeAfter, List.getLast?_nil, Option.map_none, isAfter, hmem row hrow]
      exact decide_eq_true (text_ne_empty _)
    · rw [List.concat_eq_append] at hmem horder ⊢
      obtain ⟨hdone, -, htodo⟩ := List.pairwise_append.mp horder
      obtain ⟨-, -, hbefore⟩ := List.pairwise_append.mp hdone
      have hlast : last ∈ before ++ [last] := List.mem_append_right _ (.head _)
      have hplace : placeAfter f (before ++ [last]) = some (f last).id := by
        rw [placeAfter, List.getLast?_concat, Option.map_some]
      have hnumber : (f last).id.toNat = last.number :=
        (RecordRow.number_eq (hmem last (List.mem_append_left _ hlast))).symm
      have hskip : (before ++ [last]).filter (isAfter (some (f last).id)) = [] := by
        refine List.filter_eq_nil_iff.mpr fun row hrow ↦ ?_
        rw [isAfter_some _ ⟨_, hmem row (List.mem_append_left _ hrow)⟩, hnumber,
          decide_eq_true_iff, not_lt]
        rcases List.mem_append.mp hrow with hrow | hrow
        · exact (hbefore row hrow last (.head _)).le
        · rw [List.mem_singleton.mp hrow]
      have hkeep : todo.filter (isAfter (some (f last).id)) = todo := by
        refine List.filter_eq_self.mpr fun row hrow ↦ ?_
        rw [isAfter_some _ ⟨_, hmem row (List.mem_append_right _ hrow)⟩, hnumber]
        exact decide_eq_true (htodo last hlast row hrow)
      rw [hplace, List.filter_append, hskip, hkeep, List.nil_append]
  rw [pageRows, ← ascending, ascending_filter h.record_intact h.recordId_nodup, hsplit, hafter]

theorem pageRecords_eq (h : t.Wellformed) {f : RecordRow → Record}
    (hname : ∀ row ∈ t.records, row.id = .intact (f row).id) {done todo : List RecordRow}
    (hsplit : ascending t.records = done ++ todo) (limit : ℕ) :
    t.pageRecords (placeAfter f done) limit = (todo.take limit).mapM RecordRow.read := by
  rw [pageRecords, pageRows_eq h hname hsplit]

end Tables

end RecordLinkage
