import RecordLinkage.Proofs.History.Sound
import RecordLinkage.Proofs.Store.Paging

/-!
# Pages do not show

All records are assigned page by page, and each page is looked up by the last identifier of the page
before, while clusters change in between. Assignments leave the records alone, so the pages one
after the other are the records as they were at first: each once, by ascending identifier. What is
done to the world is what would be done with all records on one page, and so it does not depend on
the size of pages.

The bound on the number of pages never matters. Every page but the last has a record, so there are
no more pages than records, and one more look finds none left.

One payload that cannot be read ends the whole on whichever page it is.
-/

namespace RecordLinkage

open Work Clustering

variable {s s' : World} {t : Tables}

namespace Tables

/-! ## All records -/

/-- All stored records, each once, by ascending identifier. -/
structure Inventory (t : Tables) (records : List Record) : Prop where
  ascending : records.Pairwise fun a b ↦ a.id < b.id
  stored : ∃ rows : List RecordRow, rows.Perm t.records ∧ rows.mapM RecordRow.read = .ok records

theorem Inventory.length_eq {records : List Record} (h : t.Inventory records) :
    records.length = t.records.length := by
  obtain ⟨rows, hperm, hread⟩ := h.stored
  rw [← (mapM_ok_iff.mp hread).length_eq, hperm.length_eq]

namespace Wellformed

variable {read : RecordRow → Record} (h : t.Wellformed)
  (hread : ∀ row ∈ t.records, Tells row (read row))

include h hread

theorem inventory (hreadable : ∀ row ∈ t.records, Readable row) :
    t.Inventory ((Tables.ascending t.records).map read) where
  ascending := by
    rw [List.pairwise_map]
    refine (pairwise_ascending h.record_intact h.recordId_nodup).imp_of_mem fun {a b} ha hb hab ↦ ?_
    rw [RecordRow.number_eq (hread a (mem_ascending.mp ha)).id,
      RecordRow.number_eq (hread b (mem_ascending.mp hb)).id] at hab
    exact hab
  stored := ⟨Tables.ascending t.records, ascending_perm _,
    mapM_read_eq_map (fun row hrow ↦ hread row (mem_ascending.mp hrow))
      fun row hrow ↦ hreadable row (mem_ascending.mp hrow)⟩

end Wellformed

theorem stores_of_tells {read : RecordRow → Record}
    (hread : ∀ row ∈ t.records, Tells row (read row)) :
    ∀ record ∈ (Tables.ascending t.records).map read, t.Stores record.id := by
  intro record hrecord
  obtain ⟨row, hrow, rfl⟩ := List.mem_map.mp hrecord
  rw [mem_ascending] at hrow
  exact ⟨row, hrow, (hread row hrow).id⟩

/-! ## Between two pages -/

/-- The rows of some pages are done, and the others are still to do. -/
structure Reading (read : RecordRow → Record) (done todo : List RecordRow) (t : Tables) : Prop where
  form : t.Wellformed
  tells : ∀ row ∈ t.records, Tells row (read row)
  split : Tables.ascending t.records = done ++ todo

namespace Reading

variable {read : RecordRow → Record} {done todo : List RecordRow} (h : Reading read done todo t)

include h

theorem tells_of_mem {row : RecordRow} (hrow : row ∈ todo) :
    row ∈ t.records ∧ Tells row (read row) := by
  have hmem : row ∈ t.records := by
    rw [← mem_ascending, h.split]
    exact List.mem_append_right _ hrow
  exact ⟨hmem, h.tells row hmem⟩

theorem pageRecords_eq (pageSize : ℕ) :
    t.pageRecords (placeAfter read done) pageSize = (todo.take pageSize).mapM RecordRow.read :=
  Tables.pageRecords_eq h.form (fun row hrow ↦ (h.tells row hrow).id) h.split pageSize

/-- Where records stay, a page that was to do is done. -/
theorem next {t' : Tables} (hform : t'.Wellformed) (hrecords : t'.records = t.records) (n : ℕ) :
    Reading read (done ++ todo.take n) (todo.drop n) t' where
  form := hform
  tells := by rw [hrecords]; exact h.tells
  split := by rw [hrecords, h.split, List.append_assoc, List.take_append_drop]

end Reading

end Tables

namespace Clustering

open Tables

/-! ## Records one after the other -/

variable (recipe : Recipe)

theorem reindexRecords_append (stats : ReindexStats) (xs ys : List Record) :
    reindexRecords recipe stats (xs ++ ys) =
      reindexRecords recipe stats xs >>= fun stats ↦ reindexRecords recipe stats ys := by
  induction xs generalizing stats with
  | nil => simp only [List.nil_append, reindexRecords, pure_bind]
  | cons record rest ih => simp only [List.cons_append, reindexRecords, bind_assoc, ih]

/-- Records that fail are counted, and the others go on. -/
theorem go_reindexRecords_ok (records : List Record) (stats : ReindexStats) (s : World) :
    ∃ failed s', (reindexRecords recipe stats records).go s
      = (.ok ⟨stats.total + records.length, failed⟩, s') := by
  induction records generalizing stats s with
  | nil => exact ⟨stats.failed, s, rfl⟩
  | cons record rest ih =>
    have hlength : ∀ fails, (stats.add fails).total + rest.length
        = stats.total + (record :: rest).length := by
      intro fails
      rw [ReindexStats.add, List.length_cons, Nat.add_assoc, Nat.add_comm 1]
    have hrest := fun fails s ↦ ih (stats.add fails) s
    simp only [hlength] at hrest
    rw [reindexRecords, go_bind, go_outcome]
    exact hrest _ _

theorem reindexRecords_keepsRecords (stats : ReindexStats) (records : List Record) :
    Respects KeepsRecords (reindexRecords recipe stats records) :=
  respects_reindexRecords recipe lasting_keepsRecords
    (fun r values ↦ assign_keepsRecords recipe.now r recipe.config values) stats records

theorem reindexRecords_grows (stats : ReindexStats) (records : List Record) :
    Respects Grows (reindexRecords recipe stats records) :=
  respects_reindexRecords recipe Lasting.grows (fun _ _ ↦ (assign_grows _ _ _ _).achieves) stats
    records

/-! ## Pages one after the other -/

section Pages

variable {recipe} {read : RecordRow → Record} {pageSize : ℕ} {done todo : List RecordRow}

theorem length_drop_lt {α : Type} {xs : List α} {n pages : ℕ} (hn : 0 < n) (hxs : xs ≠ [])
    (hpages : xs.length < pages + 1) : (xs.drop n).length < pages := by
  have hpos := List.length_pos_iff.mpr hxs
  rw [List.length_drop]
  omega

/-- Every page that can be read is assigned, and the next page begins after it. -/
theorem go_reindexPage (hsize : 0 < pageSize) (h : Reading read done todo s.tables)
    (hsome : todo ≠ []) (hpage : ∀ row ∈ todo.take pageSize, Readable row) (stats : ReindexStats)
    (pages : ℕ) :
    (reindexPages recipe pageSize (placeAfter read done) stats (pages + 1)).go s
      = (reindexRecords recipe stats ((todo.take pageSize).map read) >>= fun stats ↦
          reindexPages recipe pageSize (placeAfter read (done ++ todo.take pageSize)) stats
            pages).go s := by
  have hrecords : s.tables.pageRecords (placeAfter read done) pageSize
      = .ok ((todo.take pageSize).map read) := by
    rw [h.pageRecords_eq]
    exact mapM_read_eq_map (fun row hrow ↦ (h.tells_of_mem (List.mem_of_mem_take hrow)).2) hpage
  obtain ⟨before, last, hlast⟩ : ∃ before last, todo.take pageSize = before ++ [last] := by
    have hne : todo.take pageSize ≠ [] := by
      simp [hsome, Nat.pos_iff_ne_zero.mp hsize]
    exact ⟨_, _, (List.dropLast_append_getLast hne).symm⟩
  have hplace : placeAfter read (done ++ todo.take pageSize) = some (read last).id := by
    rw [hlast, ← List.append_assoc, placeAfter, List.getLast?_concat, Option.map_some]
  have hmap : ((todo.take pageSize).map read).getLast? = some (read last) := by
    rw [hlast, List.map_append, List.map_singleton, List.getLast?_concat]
  rw [reindexPages, go_bind, go_query, hrecords, hplace]
  simp only [hmap]

/-- After a page that can be read there are fewer rows to do, and the records are the same. -/
theorem reading_after_page (h : Reading read done todo s.tables) (stats : ReindexStats)
    {answer : Except Fault ReindexStats}
    (hgo : (reindexRecords recipe stats ((todo.take pageSize).map read)).go s = (answer, s')) :
    Reading read (done ++ todo.take pageSize) (todo.drop pageSize) s'.tables := by
  have hkeeps := reindexRecords_keepsRecords recipe stats ((todo.take pageSize).map read) s
  rw [hgo] at hkeeps
  obtain ⟨hform, hrecords, -⟩ := hkeeps h.form
  exact h.next hform hrecords pageSize

/-- **Pages one after the other are all rows that are left.** -/
theorem go_reindexPages (hsize : 0 < pageSize) (pages : ℕ) (stats : ReindexStats)
    (h : Reading read done todo s.tables) (hpages : todo.length < pages)
    (hreadable : ∀ row ∈ todo, Readable row) :
    (reindexPages recipe pageSize (placeAfter read done) stats pages).go s
      = (reindexRecords recipe stats (todo.map read)).go s := by
  induction pages generalizing done todo stats s with
  | zero => exact absurd hpages (Nat.not_lt_zero _)
  | succ pages ih =>
    by_cases hsome : todo = []
    · subst hsome
      rw [reindexPages, go_bind, go_query, h.pageRecords_eq, List.take_nil]
      rfl
    · rw [go_reindexPage hsize h hsome fun row hrow ↦ hreadable row (List.mem_of_mem_take hrow)]
      conv_rhs =>
        rw [← List.take_append_drop pageSize todo, List.map_append, reindexRecords_append]
      obtain ⟨failed, s₁, hgo⟩ :=
        go_reindexRecords_ok recipe ((todo.take pageSize).map read) stats s
      rw [go_bind, go_bind, hgo]
      exact ih _ (reading_after_page h stats hgo) (length_drop_lt hsize hsome hpages)
        fun row hrow ↦ hreadable row (List.mem_of_mem_drop hrow)

/-- Sooner or later a payload that cannot be read is met. -/
theorem go_reindexPages_error (hsize : 0 < pageSize) (pages : ℕ) (stats : ReindexStats)
    (h : Reading read done todo s.tables) (hpages : todo.length < pages)
    (hreadable : ¬∀ row ∈ todo, Readable row) :
    ((reindexPages recipe pageSize (placeAfter read done) stats pages).go s).1
      = .error .invalidPayload := by
  induction pages generalizing done todo stats s with
  | zero => exact absurd hpages (Nat.not_lt_zero _)
  | succ pages ih =>
    by_cases hpage : ∀ row ∈ todo.take pageSize, Readable row
    · have hsome : todo ≠ [] := by
        rintro rfl
        exact hreadable fun row hrow ↦ absurd hrow List.not_mem_nil
      obtain ⟨failed, s₁, hgo⟩ :=
        go_reindexRecords_ok recipe ((todo.take pageSize).map read) stats s
      rw [go_reindexPage hsize h hsome hpage, go_bind, hgo]
      refine ih _ (reading_after_page h stats hgo) (length_drop_lt hsize hsome hpages) fun hrest ↦
        hreadable fun row hrow ↦ ?_
      rw [← List.take_append_drop pageSize todo, List.mem_append] at hrow
      exact hrow.elim (hpage row) (hrest row)
    · have htells : ∀ row ∈ todo.take pageSize, Tells row (read row) := fun row hrow ↦
        (h.tells_of_mem (List.mem_of_mem_take hrow)).2
      rw [reindexPages, go_bind, go_query, h.pageRecords_eq, mapM_read_eq_error htells hpage]

end Pages

/-! ## All pages -/

variable {read : RecordRow → Record} {pageSize pages : ℕ}

/-- Before the first page all rows are to do. -/
theorem reading_start (hform : s.tables.Wellformed)
    (hread : ∀ row ∈ s.tables.records, Tells row (read row)) :
    Reading read [] (ascending s.tables.records) s.tables :=
  ⟨hform, hread, rfl⟩

theorem go_allPages (hform : s.tables.Wellformed)
    (hread : ∀ row ∈ s.tables.records, Tells row (read row))
    (hreadable : ∀ row ∈ s.tables.records, Readable row) (hsize : 0 < pageSize)
    (hpages : s.tables.records.length < pages) :
    (reindexPages recipe pageSize none ⟨0, 0⟩ pages).go s
      = (reindexRecords recipe ⟨0, 0⟩ ((ascending s.tables.records).map read)).go s := by
  rw [← (ascending_perm _).length_eq] at hpages
  exact go_reindexPages hsize pages ⟨0, 0⟩ (reading_start hform hread) hpages
    fun row hrow ↦ hreadable row (mem_ascending.mp hrow)

theorem go_allPages_error (hform : s.tables.Wellformed)
    (hreadable : ¬∀ row ∈ s.tables.records, Readable row) (hsize : 0 < pageSize)
    (hpages : s.tables.records.length < pages) :
    ((reindexPages recipe pageSize none ⟨0, 0⟩ pages).go s).1 = .error .invalidPayload := by
  obtain ⟨read, hread⟩ := hform.exists_reading
  rw [← (ascending_perm _).length_eq] at hpages
  exact go_reindexPages_error hsize pages ⟨0, 0⟩ (reading_start hform hread) hpages
    fun hall ↦ hreadable fun row hrow ↦ hall row (mem_ascending.mpr hrow)

/-- The bound on the number of pages is one more than there are records. -/
theorem go_reindexAll (pageSize : ℕ) (s : World) :
    (reindexAll recipe pageSize).go s
      = (reindexPages recipe pageSize none ⟨0, 0⟩ (s.tables.records.length + 1)).go s :=
  rfl

theorem go_reindexAll_error (hform : s.tables.Wellformed)
    (hreadable : ¬∀ row ∈ s.tables.records, Readable row) (hsize : 0 < pageSize) : ∃ s',
    (atomically (reindexAll recipe pageSize)).go s = (.error .invalidPayload, s') ∧
      s'.tables = s.tables := by
  have herror := go_allPages_error recipe hform hreadable hsize (Nat.lt_succ_self _)
  rw [← go_reindexAll] at herror
  rw [go_atomically]
  rcases hgo : (reindexAll recipe pageSize).go s with ⟨answer, s'⟩
  rw [hgo] at herror
  obtain rfl : answer = .error .invalidPayload := herror
  exact ⟨_, rfl, rfl⟩

end Clustering

open Clustering Tables

/-- **Pages do not show.** In a world that the engine leads to, where every payload can be read,
take all records that are stored, each once and by ascending identifier. Assigning them one after
the other has some outcome, and computing the match key anew page by page has the same one, for
every size of pages and for every bound on their number that is beyond the number of records, as the
one that is used is. Where a payload cannot be read, the whole fails and is undone, again for every
size of pages. -/
theorem pages_invisible (h : Reachable s) (recipe : Recipe) :
    ((∀ row ∈ s.tables.records, Readable row) → ∃ records, s.tables.Inventory records ∧
      ∃ failed s', (reindexRecords recipe ⟨0, 0⟩ records).go s
          = (.ok ⟨s.tables.records.length, failed⟩, s') ∧
        ∀ pageSize, 0 < pageSize →
          (reindexAll recipe pageSize).go s = (.ok ⟨s.tables.records.length, failed⟩, s') ∧
          ∀ pages, s.tables.records.length < pages →
            (reindexPages recipe pageSize none ⟨0, 0⟩ pages).go s
              = (.ok ⟨s.tables.records.length, failed⟩, s')) ∧
    (¬(∀ row ∈ s.tables.records, Readable row) → ∀ pageSize, 0 < pageSize → ∃ s',
      (atomically (reindexAll recipe pageSize)).go s = (.error .invalidPayload, s') ∧
        s'.tables = s.tables) := by
  have hform := h.sound.form
  refine ⟨fun hreadable ↦ ?_, fun hreadable pageSize ↦ go_reindexAll_error recipe hform hreadable⟩
  obtain ⟨read, hread⟩ := hform.exists_reading
  obtain ⟨failed, s', hgo⟩ :=
    go_reindexRecords_ok recipe ((ascending s.tables.records).map read) ⟨0, 0⟩ s
  rw [List.length_map, (ascending_perm _).length_eq, Nat.zero_add] at hgo
  refine ⟨_, hform.inventory hread hreadable, failed, s', hgo, fun pageSize hsize ↦ ?_⟩
  have hpages : ∀ pages, s.tables.records.length < pages →
      (reindexPages recipe pageSize none ⟨0, 0⟩ pages).go s
        = (.ok ⟨s.tables.records.length, failed⟩, s') :=
    fun pages hpages ↦ (go_allPages recipe hform hread hreadable hsize hpages).trans hgo
  exact ⟨hpages _ (Nat.lt_succ_self _), hpages⟩

namespace Sample

/-- Every payload has the same match value. -/
def together : Recipe := ⟨7, "isbn", ⟨"together", fun _ ↦ .ok ["w"]⟩, 600⟩

end Sample

open Sample in
/-- Two records are computed anew alike on two pages and on one. -/
theorem bridge_small_pages :
    ((reindexAll together 1).go (run blank bridge)).1 = .ok ⟨2, 0⟩ ∧
      (reindexAll together 1).go (run blank bridge)
        = (reindexAll together 50).go (run blank bridge) := by
  have hreadable : ∀ row ∈ (run blank bridge).tables.records,
      (Json.parse? row.payload).isSome = true := by
    decide +kernel
  obtain ⟨records, -, failed, s', -, hgo⟩ := (pages_invisible reachable_bridge together).1
    fun row hrow ↦ Option.isSome_iff_exists.mp (hreadable row hrow)
  refine ⟨by decide +kernel, ?_⟩
  rw [(hgo 1 (by decide)).1, (hgo 50 (by decide)).1]

end RecordLinkage
