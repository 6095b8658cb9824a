import Mathlib.Data.Prod.Lex
import RecordLinkage.Proofs.Clustering.Harvest
import RecordLinkage.Proofs.Store.Paging

/-!
# A harvest page by page

A harvester asks for the clusters of a match key that changed at some time or later, a page at a
time. The first page begins at that time, each further one behind the last row of the page before,
and the harvest is over when a page is empty. While nothing changes, the pages one after the other
are all marks from that time on, each once, by datestamp and identifier. How many rows fit on a page
does not matter.

## Why two conditions fit together

The first page asks for datestamps that are late enough, the others for rows behind a row. Both are
cut from one and the same list, the marks of the match key in the order of the listing. Rows behind
a row of the listing are what follows it there, since no two marks are of the same cluster; so it
does no harm if clusters that changed at the same time end up on different pages.

## Datestamps out of range

The datestamp after the greatest 64-bit number can be stored, but not read. A page with such a row
fails as a whole, and with it the harvest.
-/

namespace RecordLinkage

open Tables

namespace ClusterMark

/-- What marks are listed by. -/
def rank (m : ClusterMark) : ℤ ×ₗ ℕ := toLex (m.datestamp, m.cluster.toNat)

theorem before_eq (a b : ClusterMark) : a.before b = decide (a.rank < b.rank) := by
  rw [Bool.eq_iff_iff, decide_eq_true_iff, before_iff, rank, rank, Prod.Lex.toLex_lt_toLex,
    ClusterId.lt_iff_toNat]

end ClusterMark

open ClusterMark

variable {t : Tables} {c : String} {since : Datestamp} {place : Option ClusterId} {limit : ℕ}
  {rows done todo : List ClusterMark} {pages pages' : List (List ClusterMark)}
  {fault fault' : Option Fault}

/-! ## The listing -/

namespace Tables

/-- The marks of a match key, in the order of listings. -/
def marksInOrder (t : Tables) (c : String) : List ClusterMark :=
  Sorted.sortBy ClusterMark.before (t.marks.filter fun m ↦ m.config = c)

theorem before_eq_rank : ClusterMark.before = fun a b ↦ decide (a.rank < b.rank) := by
  funext a b
  exact before_eq a b

theorem nodup_rank (hmarks : (t.marks.map ClusterMark.cluster).Nodup) (p : ClusterMark → Bool) :
    ((t.marks.filter p).map rank).Nodup := by
  have hfew : ((t.marks.filter p).map ClusterMark.cluster).Nodup :=
    hmarks.sublist (List.filter_sublist.map _)
  refine hfew.of_map.map_on fun a ha b hb hrank ↦ List.inj_on_of_nodup_map hfew ha hb ?_
  exact ClusterId.toNat_injective (Prod.mk.inj (toLex.injective hrank)).2

theorem pairwise_marksInOrder (hmarks : (t.marks.map ClusterMark.cluster).Nodup) (c : String) :
    (t.marksInOrder c).Pairwise fun a b ↦ a.rank < b.rank := by
  rw [marksInOrder, before_eq_rank]
  exact Sorted.pairwise_sortBy_lt (nodup_rank hmarks _)

/-- What a page is cut from: the marks of the match key that are to be listed, in order. -/
theorem changedSince_eq (hmarks : (t.marks.map ClusterMark.cluster).Nodup) (c : String)
    (since : Datestamp) (place : Option ClusterId) (limit : ℕ) :
    t.changedSince c since place limit
      = (((t.marksInOrder c).filter (isListed since place)).take limit).mapM ClusterMark.read := by
  have hsplit : t.marks.filter (fun m ↦ m.config = c && isListed since place m)
      = (t.marks.filter fun m ↦ m.config = c).filter (isListed since place) := by
    rw [List.filter_filter]
    exact List.filter_congr fun m _ ↦ Bool.and_comm _ _
  rw [changedSince, hsplit, marksInOrder, before_eq_rank, Sorted.sortBy_filter (nodup_rank hmarks _)]

/-- The marks of a match key from a time on, in the order of listings. -/
def listing (t : Tables) (c : String) (since : Datestamp) : List ClusterMark :=
  (t.marksInOrder c).filter (isListed since none)

theorem mem_listing {m : ClusterMark} :
    m ∈ t.listing c since ↔ m ∈ t.marks ∧ m.config = c ∧ since ≤ m.datestamp := by
  rw [listing, marksInOrder, List.mem_filter, Sorted.mem_sortBy, List.mem_filter,
    decide_eq_true_iff, isListed, decide_eq_true_iff, and_assoc]

theorem pairwise_listing (hmarks : (t.marks.map ClusterMark.cluster).Nodup) (c : String)
    (since : Datestamp) : (t.listing c since).Pairwise fun a b ↦ a.rank < b.rank :=
  (pairwise_marksInOrder hmarks c).sublist List.filter_sublist

/-- **What is behind a row of the listing is what follows it.** -/
theorem filter_isListed_last (hmarks : (t.marks.map ClusterMark.cluster).Nodup)
    {last : ClusterMark} (hsplit : t.listing c since = done ++ last :: todo) :
    (t.marksInOrder c).filter (isListed last.datestamp (some last.cluster)) = todo := by
  have horder := pairwise_listing hmarks c since
  rw [hsplit] at horder
  obtain ⟨-, htodo, hdone⟩ := List.pairwise_append.mp horder
  have hbehind : ∀ m, isListed last.datestamp (some last.cluster) m
      = decide (last.rank < m.rank) := by
    intro m
    rw [← before_eq, Bool.eq_iff_iff, isListed_iff]
  have hlast : since ≤ last.datestamp := by
    have hmem : last ∈ t.listing c since := by simp [hsplit]
    exact (mem_listing.mp hmem).2.2
  -- Rows behind the last one are dated like it or later, so they belong to the listing.
  have hinside : (t.marksInOrder c).filter (isListed last.datestamp (some last.cluster))
      = (t.listing c since).filter (isListed last.datestamp (some last.cluster)) := by
    rw [listing, List.filter_filter]
    refine List.filter_congr fun m _ ↦ ?_
    by_cases hm : isListed last.datestamp (some last.cluster) m = true
    · have hlater := before_iff.mp (isListed_iff.mp hm)
      have hsince : since ≤ m.datestamp := by
        rcases hlater with h | h
        · exact hlast.trans h.le
        · exact hlast.trans h.1.le
      rw [hm, isListed, decide_eq_true hsince, Bool.and_true]
    · rw [Bool.not_eq_true] at hm
      rw [hm, Bool.false_and]
  have hskip : (done ++ [last]).filter (isListed last.datestamp (some last.cluster)) = [] := by
    refine List.filter_eq_nil_iff.mpr fun m hm ↦ ?_
    rw [hbehind, decide_eq_true_iff, not_lt]
    rcases List.mem_append.mp hm with hm | hm
    · exact (hdone m hm last List.mem_cons_self).le
    · rw [List.mem_singleton.mp hm]
  have hkeep : todo.filter (isListed last.datestamp (some last.cluster)) = todo := by
    refine List.filter_eq_self.mpr fun m hm ↦ ?_
    rw [hbehind]
    exact decide_eq_true ((List.pairwise_cons.mp htodo).1 m hm)
  rw [hinside, hsplit, List.append_cons, List.filter_append, hskip, hkeep, List.nil_append]

end Tables

/-! ## Harvests -/

/-- A harvest from a place on: the pages that are read, and the fault that ends it, if there is one.
Each further page begins behind the last row of the page before, and an empty page is the last. -/
inductive Harvest (t : Tables) (c : String) (limit : ℕ) :
    Datestamp → Option ClusterId → List (List ClusterMark) → Option Fault → Prop
  | finished {since : Datestamp} {place : Option ClusterId}
    (hpage : t.changedSince c since place limit = .ok []) : Harvest t c limit since place [[]] none
  | failed {since : Datestamp} {place : Option ClusterId} {f : Fault}
    (hpage : t.changedSince c since place limit = .error f) :
    Harvest t c limit since place [] (some f)
  | continued {since : Datestamp} {place : Option ClusterId} {page : List ClusterMark}
    {last : ClusterMark} {pages : List (List ClusterMark)} {fault : Option Fault}
    (hpage : t.changedSince c since place limit = .ok page) (hlast : page.getLast? = some last)
    (hrest : Harvest t c limit last.datestamp (some last.cluster) pages fault) :
    Harvest t c limit since place (page :: pages) fault

/-- There is one way to harvest. -/
theorem Harvest.unique (h : Harvest t c limit since place pages fault)
    (h' : Harvest t c limit since place pages' fault') : pages' = pages ∧ fault' = fault := by
  induction h generalizing pages' fault' with
  | finished hpage =>
    cases h' with
    | finished => exact ⟨rfl, rfl⟩
    | failed hpage' => exact nomatch hpage.symm.trans hpage'
    | continued hpage' hlast' =>
      obtain rfl := Except.ok.inj (hpage.symm.trans hpage')
      exact nomatch hlast'
  | failed hpage =>
    cases h' with
    | finished hpage' => exact nomatch hpage.symm.trans hpage'
    | failed hpage' =>
      obtain rfl := Except.error.inj (hpage.symm.trans hpage')
      exact ⟨rfl, rfl⟩
    | continued hpage' => exact nomatch hpage.symm.trans hpage'
  | continued hpage hlast _ ih =>
    cases h' with
    | finished hpage' =>
      obtain rfl := Except.ok.inj (hpage.symm.trans hpage')
      exact nomatch hlast
    | failed hpage' => exact nomatch hpage.symm.trans hpage'
    | continued hpage' hlast' hrest' =>
      obtain rfl := Except.ok.inj (hpage.symm.trans hpage')
      obtain rfl := Option.some.inj (hlast.symm.trans hlast')
      obtain ⟨rfl, rfl⟩ := ih hrest'
      exact ⟨rfl, rfl⟩

/-- What the pages of a harvest have to do with the rows that it is about. -/
structure Harvested (limit : ℕ) (rows : List ClusterMark) (pages : List (List ClusterMark))
    (fault : Option Fault) : Prop where
  /-- As long as all rows can be read, the pages are the rows, and end with an empty page. Every
  page is full but the last two, and none is empty but the last one. -/
  whole : (∀ m ∈ rows, m.Legible) → fault = none ∧ pages.flatten = rows ∧
    pages.getLast? = some [] ∧ (∀ page ∈ pages.dropLast, page ≠ []) ∧
    ∀ page ∈ pages.dropLast.dropLast, page.length = limit
  /-- If there is one that cannot, the harvest fails after some full pages of rows. -/
  broken : (¬∀ m ∈ rows, m.Legible) → fault = some .invalidColumn ∧ pages.flatten <+: rows ∧
    ∀ page ∈ pages, page.length = limit

namespace Harvested

theorem nil (limit : ℕ) : Harvested limit [] [[]] none where
  whole _ := ⟨rfl, rfl, rfl, by simp, by simp⟩
  broken h := absurd (by simp) h

/-- A page fails when one of its rows cannot be read. -/
theorem failed (h : ¬∀ m ∈ rows.take limit, m.Legible) :
    Harvested limit rows [] (some .invalidColumn) where
  whole hall := absurd (fun m hm ↦ hall m (List.mem_of_mem_take hm)) h
  broken _ := ⟨rfl, List.nil_prefix, by simp⟩

/-- A page is full if there are more rows behind it. -/
theorem length_page (hmore : rows.drop limit ≠ []) : (rows.take limit).length = limit := by
  rw [Ne, List.drop_eq_nil_iff, not_le] at hmore
  exact List.length_take_of_le hmore.le

/-- A page that can be read comes before the pages of the remaining rows. -/
theorem continued (hrows : rows.take limit ≠ []) (hpage : ∀ m ∈ rows.take limit, m.Legible)
    (h : Harvested limit (rows.drop limit) pages fault) :
    Harvested limit rows (rows.take limit :: pages) fault where
  whole hall := by
    obtain ⟨hfault, hflatten, hend, hne, hfull⟩ :=
      h.whole fun m hm ↦ hall m (List.mem_of_mem_drop hm)
    have hjoin : (rows.take limit :: pages).flatten = rows := by
      rw [List.flatten_cons, hflatten, List.take_append_drop]
    rcases pages with - | ⟨page, later⟩
    · exact nomatch hend
    · refine ⟨hfault, hjoin, hend, ?_, ?_⟩
      · rw [List.dropLast_cons_cons]
        exact List.forall_mem_cons.mpr ⟨hrows, hne⟩
      · rcases later with - | ⟨page', later⟩
        · simp
        · rw [List.dropLast_cons_cons, List.dropLast_cons_cons, List.dropLast_cons_cons]
          rw [List.dropLast_cons_cons] at hfull hne
          refine List.forall_mem_cons.mpr ⟨?_, hfull⟩
          -- More than one page is to come, so there are more rows than fit on this one.
          have hmore : rows.drop limit ≠ [] := by
            intro hnil
            rw [hnil, List.flatten_cons, List.append_eq_nil_iff] at hflatten
            exact hne page List.mem_cons_self hflatten.1
          exact length_page hmore
  broken hsome := by
    have hlater : ¬∀ m ∈ rows.drop limit, m.Legible := by
      intro hall
      refine hsome fun m hm ↦ ?_
      rw [← List.take_append_drop limit rows] at hm
      exact (List.mem_append.mp hm).elim (hpage m) (hall m)
    obtain ⟨hfault, hprefix, hfull⟩ := h.broken hlater
    refine ⟨hfault, ?_, List.forall_mem_cons.mpr ⟨?_, hfull⟩⟩
    · rw [List.flatten_cons]
      nth_rewrite 2 [← List.take_append_drop limit rows]
      exact (List.prefix_append_right_inj _).mpr hprefix
    · have hmore : rows.drop limit ≠ [] := by
        intro hnil
        rw [hnil] at hlater
        exact hlater (by simp)
      exact length_page hmore

end Harvested

/-- Where a harvest that has seen some rows goes on. -/
def nextPlace (since : Datestamp) (done : List ClusterMark) : Datestamp × Option ClusterId :=
  match done.getLast? with
  | none => (since, none)
  | some last => (last.datestamp, some last.cluster)

theorem nextPlace_append {last : ClusterMark} (done page : List ClusterMark)
    (hlast : page.getLast? = some last) :
    nextPlace since (done ++ page) = (last.datestamp, some last.cluster) := by
  rw [nextPlace, List.getLast?_append_of_ne_nil _ (by rintro rfl; exact nomatch hlast), hlast]

/-- A page begins where the rows that were seen end. -/
theorem changedSince_nextPlace (hmarks : (t.marks.map ClusterMark.cluster).Nodup)
    (hsplit : t.listing c since = done ++ todo) (limit : ℕ) :
    t.changedSince c (nextPlace since done).1 (nextPlace since done).2 limit
      = (todo.take limit).mapM ClusterMark.read := by
  rw [changedSince_eq hmarks]
  rcases List.eq_nil_or_concat done with rfl | ⟨before, last, rfl⟩
  · rw [List.nil_append] at hsplit
    rw [← hsplit]
    rfl
  · rw [List.concat_eq_append] at hsplit ⊢
    have hplace : nextPlace since (before ++ [last]) = (last.datestamp, some last.cluster) :=
      nextPlace_append before [last] rfl
    rw [List.append_assoc, List.singleton_append] at hsplit
    rw [hplace, filter_isListed_last hmarks hsplit]

/-- **A harvest goes through what is left of the listing.** -/
theorem exists_harvest (hmarks : (t.marks.map ClusterMark.cluster).Nodup) (hlimit : 0 < limit)
    (hsplit : t.listing c since = done ++ todo) : ∃ pages fault,
    Harvest t c limit (nextPlace since done).1 (nextPlace since done).2 pages fault ∧
      Harvested limit todo pages fault := by
  -- The induction is on the number of rows that are left, and each page takes some of them.
  generalize hn : todo.length = n
  induction n using Nat.strong_induction_on generalizing done todo with
  | _ n ih =>
    have hpage := changedSince_nextPlace hmarks hsplit limit
    rcases mapM_read_cases (todo.take limit) with ⟨hall, hread⟩ | ⟨hsome, hread⟩
    · rw [hread] at hpage
      rcases todo with - | ⟨m, rest⟩
      · rw [List.take_nil] at hpage
        exact ⟨_, _, .finished hpage, .nil limit⟩
      · have hrows : (m :: rest).take limit ≠ [] := by simp [hlimit.ne']
        obtain ⟨last, hlast⟩ := Option.ne_none_iff_exists'.mp (mt List.getLast?_eq_none_iff.mp hrows)
        have hshort : ((m :: rest).drop limit).length < n := by
          rw [← hn, List.length_drop, List.length_cons]
          omega
        have hsplit' : t.listing c since
            = (done ++ (m :: rest).take limit) ++ (m :: rest).drop limit := by
          rw [List.append_assoc, List.take_append_drop, hsplit]
        obtain ⟨pages, fault, hharvest, hharvested⟩ := ih _ hshort hsplit' rfl
        rw [nextPlace_append done _ hlast] at hharvest
        exact ⟨_, _, .continued hpage hlast hharvest, hharvested.continued hrows hall⟩
    · rw [hread] at hpage
      exact ⟨_, _, .failed hpage, .failed hsome⟩

/-- **Pages tell the whole listing.** Where every cluster has one mark, there is one list of rows
for a match key and a time: the marks of the match key that are not dated before the time, strictly
ascending by datestamp and cluster. A harvest with room for at least one row on each page comes to
an end, in one way only. If all rows can be read, its pages one after the other are these rows, the
last page is empty and no other is, and all but the last two are full. Otherwise it fails after some
full pages. -/
theorem harvest_tells_listing (hmarks : (t.marks.map ClusterMark.cluster).Nodup) (c : String)
    (since : Datestamp) : ∃ rows : List ClusterMark,
    (∀ m, m ∈ rows ↔ m ∈ t.marks ∧ m.config = c ∧ since ≤ m.datestamp) ∧
    rows.Pairwise (fun a b ↦ a.datestamp < b.datestamp ∨
      a.datestamp = b.datestamp ∧ a.cluster < b.cluster) ∧
    ∀ limit, 0 < limit → ∃ pages fault, Harvest t c limit since none pages fault ∧
      (∀ pages' fault', Harvest t c limit since none pages' fault' →
        pages' = pages ∧ fault' = fault) ∧
      Harvested limit rows pages fault := by
  refine ⟨t.listing c since, fun m ↦ mem_listing, ?_, fun limit hlimit ↦ ?_⟩
  · refine (pairwise_listing hmarks c since).imp fun {a b} hab ↦ ?_
    rwa [← before_iff, before_eq, decide_eq_true_iff]
  · have hstart : t.listing c since = [] ++ t.listing c since := rfl
    obtain ⟨pages, fault, hharvest, hharvested⟩ := exists_harvest hmarks hlimit hstart
    exact ⟨pages, fault, hharvest, fun pages' fault' h' ↦ hharvest.unique h', hharvested⟩

open Sample in
/-- Two clusters that changed at the same time are harvested one after the other, whether each of
them is on a page of its own or there is room for both. -/
theorem bridge_harvested :
    Harvest (run blank bridge).tables "isbn" 1 0 none
      [[⟨⟨Uuid.ofNat 2⟩, "isbn", 6⟩], [⟨⟨Uuid.ofNat 3⟩, "isbn", 6⟩], []] none ∧
    ∃ pages, Harvest (run blank bridge).tables "isbn" 5 0 none pages none ∧
      pages.flatten = [⟨⟨Uuid.ofNat 2⟩, "isbn", 6⟩, ⟨⟨Uuid.ofNat 3⟩, "isbn", 6⟩] := by
  have hmarks : ((run blank bridge).tables.marks.map ClusterMark.cluster).Nodup := by
    decide +kernel
  have hstamps : ∀ m ∈ (run blank bridge).tables.marks, m.datestamp < Datestamp.limit := by
    decide +kernel
  have hfirst : (run blank bridge).tables.changedSince "isbn" 0 none 1
      = .ok [⟨⟨Uuid.ofNat 2⟩, "isbn", 6⟩] := by
    decide +kernel
  have hsecond : (run blank bridge).tables.changedSince "isbn" 6 (some ⟨Uuid.ofNat 2⟩) 1
      = .ok [⟨⟨Uuid.ofNat 3⟩, "isbn", 6⟩] := by
    decide +kernel
  have hthird : (run blank bridge).tables.changedSince "isbn" 6 (some ⟨Uuid.ofNat 3⟩) 1
      = .ok [] := by
    decide +kernel
  have hsingly : Harvest (run blank bridge).tables "isbn" 1 0 none
      [[⟨⟨Uuid.ofNat 2⟩, "isbn", 6⟩], [⟨⟨Uuid.ofNat 3⟩, "isbn", 6⟩], []] none :=
    .continued hfirst rfl (.continued hsecond rfl (.finished hthird))
  obtain ⟨rows, hmem, -, hall⟩ := harvest_tells_listing hmarks "isbn" 0
  have hlegible : ∀ m ∈ rows, m.Legible := fun m hm ↦ hstamps m ((hmem m).mp hm).1
  have hrows : [⟨⟨Uuid.ofNat 2⟩, "isbn", 6⟩, ⟨⟨Uuid.ofNat 3⟩, "isbn", 6⟩] = rows := by
    obtain ⟨_, _, -, hunique, hharvested⟩ := hall 1 Nat.one_pos
    obtain ⟨rfl, -⟩ := hunique _ _ hsingly
    exact (hharvested.whole hlegible).2.1
  obtain ⟨pages, fault, hharvest, -, hharvested⟩ := hall 5 (by decide)
  obtain ⟨rfl, hflatten, -⟩ := hharvested.whole hlegible
  exact ⟨hsingly, pages, hharvest, hflatten.trans hrows.symm⟩

end RecordLinkage
