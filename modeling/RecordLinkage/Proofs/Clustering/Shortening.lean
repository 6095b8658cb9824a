import RecordLinkage.Proofs.Clustering.CleanRebuild
import RecordLinkage.Proofs.Clustering.Truncation
import RecordLinkage.Proofs.History.Failure

/-!
# Shorter match values merge clusters

The same records are clustered twice, once with the values cut to some length and once with them cut
to a shorter one. Values that agree up to the longer length agree up to the shorter one, so sets
that overlap go on overlapping, and chains of records stay chains. Clusters can only grow together.
What is owned is what was owned before, cut again; and as no value is cut away altogether, the
records without values are the same.

Cutting counts characters, so cutting a value that has been cut is cutting it once.

Where nothing can be computed, because there is no such match key, or its method cannot be set up,
or a payload cannot be read, the match key is left without clusters, and this does not depend on the
length.
-/

namespace RecordLinkage

open Clustering Work Tables

variable {config : String} {s s' : World} {m : Method} {limit short long : ℕ} {now : Datestamp}
  {q r : RecordId} {V W : List String} {t u u' : Tables} {v : String}

/-! ## Cutting twice -/

/-- Values that were cut before come out as if they had not been. -/
theorem Clustering.truncate_of_le (h : short ≤ long) (V : List String) :
    truncate short (truncate long V) = truncate short V := by
  rw [truncate_truncate, min_eq_left h]

/-- The shorter set of a record is its longer set, cut. -/
theorem bears_shorter (h : short ≤ long) :
    Bears t m short r V ↔ ∃ W, Bears t m long r W ∧ V = truncate short W := by
  constructor
  · rintro ⟨row, hrow, hid, payload, values, hpayload, hvalues, rfl⟩
    exact ⟨_, ⟨row, hrow, hid, payload, values, hpayload, hvalues, rfl⟩,
      (truncate_of_le h values).symm⟩
  · rintro ⟨-, ⟨row, hrow, hid, payload, values, hpayload, hvalues, rfl⟩, rfl⟩
    exact ⟨row, hrow, hid, payload, values, hpayload, hvalues, truncate_of_le h values⟩

/-- Sets that overlap still do when they are cut. -/
theorem overlaps_shorter (h : short ≤ long) (hqr : Overlaps (Bears t m long) q r) :
    Overlaps (Bears t m short) q r := by
  obtain ⟨V, W, v, hV, hW, hv, hv'⟩ := hqr
  exact ⟨truncate short V, truncate short W, cut short v, (bears_shorter h).mpr ⟨V, hV, rfl⟩,
    (bears_shorter h).mpr ⟨W, hW, rfl⟩, mem_truncate.mpr ⟨v, hv, rfl⟩,
    mem_truncate.mpr ⟨v, hv', rfl⟩⟩

theorem chain_shorter (h : short ≤ long)
    (hqr : Relation.TransGen (Overlaps (Bears t m long)) q r) :
    Relation.TransGen (Overlaps (Bears t m short)) q r :=
  hqr.lift id fun _ _ ↦ overlaps_shorter h

/-! ## Clusterings of longer and of shorter values -/

namespace Tables

/-- A record is the only member of a cluster that owns no value. -/
def Valueless (t : Tables) (config : String) (r : RecordId) : Prop :=
  ∃ x, t.Holds config x r ∧ (∀ v, ¬t.Owns config x v) ∧ ∀ q, t.Holds config x q → q = r

/-- What becomes of a clustering when its values are cut to a length. -/
structure Shortens (config : String) (limit : ℕ) (t t' : Tables) : Prop where
  /-- Records that share a cluster go on sharing one. -/
  together : ∀ x q r, t.Holds config x q → t.Holds config x r →
    ∃ y, t'.Holds config y q ∧ t'.Holds config y r
  /-- The owned values are the values that were owned, each cut. -/
  owned : ∀ v, (∃ y, t'.Owns config y v) ↔ ∃ w, (∃ x, t.Owns config x w) ∧ v = cut limit w
  /-- The records that are alone for want of values are the same. -/
  valueless : ∀ r, t'.Valueless config r ↔ t.Valueless config r

/-- Without clusters there is nothing to cut. -/
theorem Shortens.clear (config : String) (limit : ℕ) (t t' : Tables) :
    Shortens config limit (t.clear config) (t'.clear config) where
  together x q _ hq := absurd hq (not_holds_clear config x q)
  owned v := by
    refine iff_of_false ?_ ?_
    · rintro ⟨y, hy⟩
      exact not_owns_clear config y v hy
    · rintro ⟨w, ⟨x, hx⟩, -⟩
      exact not_owns_clear config x w hx
  valueless r := by
    refine iff_of_false ?_ ?_
    · rintro ⟨y, hy, -⟩
      exact not_holds_clear config y r hy
    · rintro ⟨x, hx, -⟩
      exact not_holds_clear config x r hx

end Tables

namespace Clustering.Components

variable {sets : RecordId → List String → Prop}

/-- The records that are alone for want of values are those whose sets are empty. -/
theorem valueless_iff (h : Components config sets t) (hform : t.Wellformed) :
    t.Valueless config r ↔ sets r [] := by
  constructor
  · rintro ⟨x, hx, hno, -⟩
    obtain ⟨V, -, hV, -⟩ := h.exists_holds (hform.stores_of_holds hx)
    rcases V with - | ⟨v, V⟩
    · exact hV
    · exact absurd (h.values hV hx v List.mem_cons_self) (hno v)
  · intro hr
    obtain ⟨-, x, -, hx⟩ := h.exists_holds (h.stored hr).1
    exact ⟨x, hx, h.alone hr hx⟩

/-- **Components of shorter values are merged from components of longer ones.** -/
theorem shortens (h : Components config (Bears t m long) u)
    (h' : Components config (Bears t m short) u') (hform : u.Wellformed) (hform' : u'.Wellformed)
    (hle : short ≤ long) : u.Shortens config short u' where
  together x q r hq hr := by
    have hshort : ∀ p, u.Holds config x p → ∃ y, u'.Holds config y p := fun p hp ↦ by
      obtain ⟨V, -, hV, -⟩ := h.exists_holds (hform.stores_of_holds hp)
      obtain ⟨-, y, -, hy⟩ := h'.exists_holds (h'.stored ((bears_shorter hle).mpr ⟨V, hV, rfl⟩)).1
      exact ⟨y, hy⟩
    obtain ⟨y, hy⟩ := hshort q hq
    obtain ⟨z, hz⟩ := hshort r hr
    -- Two records share a cluster when they are one record or a chain joins them.
    have hlinked := ((h.share_iff hform hq hr).mp rfl).imp_right (chain_shorter hle)
    exact ⟨y, hy, (h'.share_iff hform' hy hz).mpr hlinked ▸ hz⟩
  owned v := by
    rw [h'.owned]
    simp only [h.owned]
    constructor
    · rintro ⟨r, V, hV, hv⟩
      obtain ⟨W, hW, rfl⟩ := (bears_shorter hle).mp hV
      obtain ⟨w, hw, rfl⟩ := mem_truncate.mp hv
      exact ⟨w, ⟨r, W, hW, hw⟩, rfl⟩
    · rintro ⟨w, ⟨r, W, hW, hw⟩, rfl⟩
      exact ⟨r, _, (bears_shorter hle).mpr ⟨W, hW, rfl⟩, mem_truncate.mpr ⟨w, hw, rfl⟩⟩
  valueless r := by
    rw [h'.valueless_iff hform', h.valueless_iff hform, bears_shorter hle]
    constructor
    · rintro ⟨W, hW, hnil⟩
      rwa [truncate_eq_nil_iff.mp hnil.symm] at hW
    · exact fun hnil ↦ ⟨[], hnil, (truncate_eq_nil_iff.mpr rfl).symm⟩

end Clustering.Components

/-! ## Rebuilding with both lengths -/

/-- A match key that is not there, or whose method cannot be set up, is left without clusters. -/
theorem tables_cleanRebuild_of_impossible (hcache : s.cache.Made) (handle : Handle)
    (hnot : ∀ k m, s.tables.matchKey? config = .ok (some k) → k.createMethod ≠ .ok m) :
    (cleanRebuild handle config limit now s).2.tables = s.tables.clear config := by
  have hkeys : ((clearing config).perform s).tables.matchKey? config
      = s.tables.matchKey? config := rfl
  rcases hgo : cleanRebuild handle config limit now s with ⟨f | answer, s'⟩
  · exact (rebuild_error hgo).1
  · rw [cleanRebuild, rebuild, go_bind, go_query, hkeys] at hgo
    rcases hkey : s.tables.matchKey? config with f | - | k
    · rw [hkey] at hgo
      cases hgo
    · rw [hkey] at hgo
      obtain ⟨-, rfl⟩ := Prod.mk.inj hgo
      rfl
    · -- The cache refuses what cannot be set up.
      have hsame : ((clearing config).perform s).cache = s.cache := rfl
      have hget := hcache.get_method handle.tenant k
      rw [hkey] at hgo
      dsimp only at hgo
      rw [go_bind, go_method, hsame] at hgo
      rcases hkept : (s.cache.get handle.tenant k).1 with f | kept
      · rw [hkept] at hgo
        cases hgo
      · rw [hkept] at hget
        exact absurd hget.symm (hnot k kept.method hkey)

/-- **Shortening match values only merges clusters.** Let the same records be clustered anew under
the same match key, with values cut to one length and to a shorter one. Records that share a cluster
with the longer values share one with the shorter; the owned values are the longer ones, cut; and
the same records are alone because they have no values. -/
theorem shortening_only_merges (h : Reachable s) (h' : Reachable s') (hcache : s.cache.Made)
    (hcache' : s'.cache.Made)
    (hkey : s'.tables.matchKey? config = s.tables.matchKey? config)
    (hrecords : ∀ row, row ∈ s'.tables.records ↔ row ∈ s.tables.records) (hle : short ≤ long)
    (tenant tenant' : TenantId) (fetchSize fetchSize' : ℕ) (now now' : Datestamp)
    (hids : (cleanRebuild (.writing tenant fetchSize) config long now s).2.ids.next < idLimit)
    (hids' : (cleanRebuild (.writing tenant' fetchSize') config short now' s').2.ids.next
      < idLimit) :
    (cleanRebuild (.writing tenant fetchSize) config long now s).2.tables.Shortens config short
      (cleanRebuild (.writing tenant' fetchSize') config short now' s').2.tables := by
  by_cases hpossible : ∃ k m, s.tables.matchKey? config = .ok (some k) ∧ k.createMethod = .ok m
  · obtain ⟨k, m, hk, hmethod⟩ := hpossible
    have hlong := rebuilt_cleanRebuild h hcache hk hmethod hids
    have hshort := rebuilt_cleanRebuild h' hcache' (hkey.trans hk) hmethod hids'
    by_cases hreadable : ∀ row ∈ s.tables.records, Readable row
    · obtain ⟨-, -, hcomponents⟩ := hlong.readable hreadable
      obtain ⟨-, -, hcomponents'⟩ := hshort.readable fun row hrow ↦
        hreadable row ((hrecords row).mp hrow)
      rw [bears_congr hrecords] at hcomponents'
      exact hcomponents.shortens hcomponents' hlong.form hshort.form hle
    · rw [(hlong.unreadable hreadable).2, (hshort.unreadable fun hall ↦
        hreadable fun row hrow ↦ hall row ((hrecords row).mpr hrow)).2]
      exact .clear config short s.tables s'.tables
  · -- Both come to nothing, whatever the lengths are.
    have hnot : ∀ k m, s.tables.matchKey? config = .ok (some k) → k.createMethod ≠ .ok m :=
      fun k m hk hm ↦ hpossible ⟨k, m, hk, hm⟩
    rw [tables_cleanRebuild_of_impossible hcache _ hnot,
      tables_cleanRebuild_of_impossible hcache' _ (hkey.symm ▸ hnot)]
    exact .clear config short s.tables s'.tables

namespace Sample

/-- Two records whose values agree in the first character only, and one without values. -/
def prefixed : List Call :=
  [⟨.free, .insertMatchKey isbn⟩,
    ⟨.free, .storeRecord (keyOf "a") (strings ["éa", "w"])⟩,
    ⟨.free, .storeRecord (keyOf "b") (strings ["éb"])⟩,
    ⟨.free, .storeRecord (keyOf "c") (strings [])⟩]

theorem reachable_prefixed : Reachable (run blank prefixed) := by
  refine ⟨blank, prefixed, rfl, rfl, ?_⟩
  simp [prefixed, Operation.IsEngine, Operation.reading?]

/-- The clusters of the members, by their numbers, when values are cut to a length. -/
def shortened (limit : ℕ) : Except Fault (Option ReindexStats) × World :=
  cleanRebuild (.writing owner 2) "isbn" limit 9 (run blank prefixed)

end Sample

open Sample in
/-- With two characters there are three clusters, and with one there are two. -/
theorem prefixed_records_merge :
    (shortened 2).2.tables.Shortens "isbn" 1 (shortened 1).2.tables ∧
    ((shortened 2).2.tables.members.map MemberRow.cluster).dedup.length = 3 ∧
    ((shortened 1).2.tables.members.map MemberRow.cluster).dedup.length = 2 := by
  have hcache : (run blank prefixed).cache.Made :=
    .of_isEmpty (by decide +kernel) (by decide +kernel)
  have hids : (shortened 2).2.ids.next < idLimit := by decide +kernel
  have hids' : (shortened 1).2.ids.next < idLimit := by decide +kernel
  have hthree : ((shortened 2).2.tables.members.map MemberRow.cluster).dedup.length = 3 := by
    decide +kernel
  have htwo : ((shortened 1).2.tables.members.map MemberRow.cluster).dedup.length = 2 := by
    decide +kernel
  refine ⟨?_, hthree, htwo⟩
  rw [shortened] at hids hids'
  rw [shortened, shortened]
  exact shortening_only_merges reachable_prefixed reachable_prefixed hcache hcache rfl
    (fun _ ↦ Iff.rfl) (by decide) owner owner 2 2 9 9 hids hids'

end RecordLinkage
