import RecordLinkage.Proofs.Clustering.Components
import RecordLinkage.Proofs.Clustering.Rebuild

/-!
# A clean rebuild forgets history

What a match key has computed is removed, and then computed anew. The result depends on the records
that are stored now and on nothing else: it is their partition into connected components, whatever
was stored, updated, deleted and merged before, and whatever the parameters of the match key were.
So two databases with the same records get the same clusters, up to the names of these.

A payload that cannot be read stands in the way of computing anything. The match key is then left
without clusters, which depends as little on what was before.
-/

namespace RecordLinkage

open Clustering Work Tables

variable {config : String} {s : World} {k : MatchKey} {m : Method} {limit : ℕ} {now : Datestamp}
  {r : RecordId} {V : List String} {t t' : Tables}

/-- Removes what a match key has computed. -/
def clearing (config : String) : Call := ⟨.free, .clear config⟩

/-- Removes what a match key has computed, and computes it anew. -/
def cleanRebuild (handle : Handle) (config : String) (limit : ℕ) (now : Datestamp) (s : World) :
    Except Fault (Option ReindexStats) × World :=
  (rebuild .free handle config limit now).go ((clearing config).perform s)

/-- A stored record has a set of match values: those of its payload, each cut. -/
def Bears (t : Tables) (m : Method) (limit : ℕ) (r : RecordId) (V : List String) : Prop :=
  ∃ row ∈ t.records, row.id = .intact r ∧ ∃ payload values, Json.parse? row.payload = some payload ∧
    m.matchValues payload = .ok values ∧ V = truncate limit values

/-! ## Before the first record is assigned -/

theorem Reachable.clear (h : Reachable s) (config : String) :
    Reachable ((clearing config).perform s) := by
  obtain ⟨s₀, calls, hempty, rfl, hcalls⟩ := h
  refine ⟨s₀, calls ++ [clearing config], hempty, ?_, ?_⟩
  · rw [run, run, List.foldl_append]
    rfl
  · intro c hc
    rcases List.mem_append.mp hc with hc | hc
    · exact hcalls c hc
    · rw [List.mem_singleton.mp hc]
      exact ⟨trivial, fun _ h ↦ nomatch h⟩

theorem not_owns_clear (config : String) (x : ClusterId) (v : String) :
    ¬(t.clear config).Owns config x v := by
  simp [Owns, Tables.clear]

theorem not_holds_clear (config : String) (x : ClusterId) (q : RecordId) :
    ¬(t.clear config).Holds config x q := by
  simp [Holds, Tables.clear]

/-! ## What is computed -/

section Entries

variable {f : Json → List String} {read : RecordRow → Record}

/-- The sets that records are assigned with, the last one first. -/
def entries (limit : ℕ) (f : Json → List String) (read : RecordRow → Record) (t : Tables) :
    List (RecordId × List String) :=
  ((ascending t.records).map fun row ↦
    ((read row).id, truncate limit (f (read row).payload))).reverse

variable (hread : ∀ row ∈ t.records, Tells row (read row))

include hread

/-- Every record is assigned once. -/
theorem nodup_entries (hform : t.Wellformed) : ((entries limit f read t).map Prod.fst).Nodup := by
  have hids : ((ascending t.records).map fun row ↦ (read row).id).map Cell.intact
      = (ascending t.records).map RecordRow.id := by
    rw [List.map_map]
    exact List.map_congr_left fun row hrow ↦ (hread row (mem_ascending.mp hrow)).id.symm
  have hnodup : ((ascending t.records).map RecordRow.id).Nodup :=
    ((ascending_perm _).map RecordRow.id).nodup_iff.mpr hform.recordId_nodup
  rw [← hids] at hnodup
  rw [entries, List.map_reverse, List.nodup_reverse, List.map_map]
  exact hnodup.of_map

variable (hf : ∀ payload, m.matchValues payload = .ok (f payload))
  (hreadable : ∀ row ∈ t.records, Readable row)

include hf hreadable

/-- A record is assigned with the set of its payload. -/
theorem mem_entries_iff : (r, V) ∈ entries limit f read t ↔ Bears t m limit r V := by
  rw [entries, List.mem_reverse, List.mem_map]
  constructor
  · rintro ⟨row, hrow, heq⟩
    obtain ⟨rfl, rfl⟩ := Prod.mk.inj heq
    rw [mem_ascending] at hrow
    obtain ⟨payload, hpayload⟩ := hreadable row hrow
    rw [((hread row hrow).read payload hpayload).2]
    exact ⟨row, hrow, (hread row hrow).id, payload, f payload, hpayload, hf payload, rfl⟩
  · rintro ⟨row, hrow, hid, payload, values, hpayload, hvalues, rfl⟩
    obtain rfl := Except.ok.inj ((hf payload).symm.trans hvalues)
    refine ⟨row, mem_ascending.mpr hrow, ?_⟩
    rw [((hread row hrow).read payload hpayload).2,
      Cell.intact.inj ((hread row hrow).id.symm.trans hid)]

theorem lookup_entries_eq_some_iff (hform : t.Wellformed) :
    (entries limit f read t).lookup r = some V ↔ Bears t m limit r V := by
  rw [lookup_eq_some_iff_mem (nodup_entries hread hform), mem_entries_iff hread hf hreadable]

omit hread in
theorem stores_iff_exists_bears : t.Stores r ↔ ∃ V, Bears t m limit r V := by
  constructor
  · rintro ⟨row, hrow, hid⟩
    obtain ⟨payload, hpayload⟩ := hreadable row hrow
    exact ⟨_, row, hrow, hid, payload, f payload, hpayload, hf payload, rfl⟩
  · rintro ⟨V, row, hrow, hid, -⟩
    exact ⟨row, hrow, hid⟩

end Entries

/-- What a clean rebuild leaves behind: components, or nothing if a payload cannot be read. -/
structure Rebuilt (config : String) (m : Method) (limit : ℕ) (t : Tables)
    (answer : Except Fault (Option ReindexStats)) (t' : Tables) : Prop where
  form : t'.Wellformed
  readable : (∀ row ∈ t.records, Readable row) →
    answer = .ok (some ⟨t.records.length, 0⟩) ∧ t'.records = t.records ∧
      Components config (Bears t m limit) t'
  unreadable : ¬(∀ row ∈ t.records, Readable row) →
    answer = .error .invalidPayload ∧ t' = t.clear config

/-- A handle for writing reads pages of one record at least. -/
theorem Handle.pageSize_writing_pos (tenant : TenantId) (fetchSize : ℕ) :
    0 < (Handle.writing tenant fetchSize).pageSize :=
  lt_of_lt_of_le Nat.one_pos (le_max_right _ _)

theorem rebuilt_of_orderly {tenant : TenantId} {fetchSize : ℕ} (hbefore : s.tables.Wellformed)
    (ho : ((clearing config).perform s).Orderly) (hcache : s.cache.Made)
    (hkey : s.tables.matchKey? config = .ok (some k)) (hmethod : k.createMethod = .ok m)
    (hids : (cleanRebuild (.writing tenant fetchSize) config limit now s).2.ids.next < idLimit) :
    Rebuilt config m limit s.tables (cleanRebuild (.writing tenant fetchSize) config limit now s).1
      (cleanRebuild (.writing tenant fetchSize) config limit now s).2.tables := by
  have hform : (s.tables.clear config).Wellformed := ho.form
  have hsize := Handle.pageSize_writing_pos tenant fetchSize
  choose f hf using Method.exists_matchValues hmethod
  obtain ⟨read, hread⟩ := hbefore.exists_reading
  by_cases hreadable : ∀ row ∈ s.tables.records, Readable row
  · obtain ⟨-, s₂, -, hgo, -, hwalked⟩ :=
      go_rebuild ho hkey hsize hids hcache hmethod hf hread hreadable
    have htracks := hwalked.course.tracks hform
      ⟨fun x v hx ↦ absurd hx (not_owns_clear config x v),
        fun x q hx ↦ absurd hx (not_holds_clear config x q),
        fun x q hx ↦ absurd hx (not_holds_clear config x q)⟩
    have hcomponents : Components config (Bears s.tables m limit) s₂.tables := by
      refine components_of_tracks (fun r V ↦ mem_entries_iff hread hf hreadable)
        (not_owns_clear config) (nodup_entries hread hbefore) (fun r ↦ ?_)
        hwalked.orderly.form htracks
      rw [Stores, hwalked.records]
      exact stores_iff_exists_bears hf hreadable
    rw [cleanRebuild, hgo]
    exact ⟨hwalked.orderly.form, fun _ ↦ ⟨rfl, hwalked.records, hcomponents⟩,
      fun hnot ↦ absurd hreadable hnot⟩
  · obtain ⟨s₂, hgo, htables⟩ :=
      go_rebuild_error ho hkey hsize hids hcache hmethod hreadable
    rw [cleanRebuild, hgo]
    exact ⟨htables ▸ hform, fun hall ↦ absurd hall hreadable, fun _ ↦ ⟨rfl, htables⟩⟩

theorem rebuilt_cleanRebuild {tenant : TenantId} {fetchSize : ℕ} (h : Reachable s)
    (hcache : s.cache.Made) (hkey : s.tables.matchKey? config = .ok (some k))
    (hmethod : k.createMethod = .ok m)
    (hids : (cleanRebuild (.writing tenant fetchSize) config limit now s).2.ids.next < idLimit) :
    Rebuilt config m limit s.tables (cleanRebuild (.writing tenant fetchSize) config limit now s).1
      (cleanRebuild (.writing tenant fetchSize) config limit now s).2.tables := by
  have hgrows : Grows ((clearing config).perform s)
      (cleanRebuild (.writing tenant fetchSize) config limit now s).2 :=
    rebuild_grows .free _ config limit now _
  have ho := (h.clear config).orderly (lt_of_le_of_lt hgrows hids).le
  exact rebuilt_of_orderly h.sound.form ho hcache hkey hmethod hids

/-! ## Two databases with the same records -/

theorem bears_congr (h : ∀ row, row ∈ t'.records ↔ row ∈ t.records) :
    Bears t' m limit = Bears t m limit := by
  funext r V
  simp only [Bears, h]

/-- What clean rebuilds of the same records leave behind differs by the names of clusters. -/
theorem Rebuilt.exists_renaming {answer answer' : Except Fault (Option ReindexStats)}
    {u u' : Tables} (h : Rebuilt config m limit t answer u)
    (h' : Rebuilt config m limit t' answer' u')
    (hrecords : ∀ row, row ∈ t'.records ↔ row ∈ t.records) : ∃ κ : Equiv.Perm ClusterId,
      (∀ x v, u.Owns config x v ↔ u'.Owns config (κ x) v) ∧
      ∀ x r, u.Holds config x r ↔ u'.Holds config (κ x) r := by
  by_cases hreadable : ∀ row ∈ t.records, Readable row
  · obtain ⟨-, -, hcomponents⟩ := h.readable hreadable
    obtain ⟨-, -, hcomponents'⟩ := h'.readable fun row hrow ↦ hreadable row ((hrecords row).mp hrow)
    rw [bears_congr hrecords] at hcomponents'
    exact hcomponents.exists_renaming hcomponents' h.form h'.form
  · -- Nothing is left on either side.
    obtain ⟨-, rfl⟩ := h.unreadable hreadable
    obtain ⟨-, rfl⟩ := h'.unreadable fun hall ↦
      hreadable fun row hrow ↦ hall row ((hrecords row).mpr hrow)
    refine ⟨Equiv.refl _, fun x v ↦ ?_, fun x r ↦ ?_⟩
    · exact iff_of_false (not_owns_clear config x v) (not_owns_clear config _ v)
    · exact iff_of_false (not_holds_clear config x r) (not_holds_clear config _ r)

/-- **A clean rebuild forgets history.** In a world that the engine leads to, let a match key have a
valid method. When it is cleared and computed anew, every stored record gets one membership, the
owned values are those of the stored payloads, and the clusters are the connected components of the
records whose values overlap; with a payload that cannot be read, the match key stays empty. From
any other such world with the same records and the same method, the same clusters result, up to
their names. -/
theorem clean_rebuild_forgets_history (h : Reachable s) (hcache : s.cache.Made)
    (hkey : s.tables.matchKey? config = .ok (some k)) (hmethod : k.createMethod = .ok m)
    (tenant : TenantId) (fetchSize limit : ℕ) (now : Datestamp)
    (hids : (cleanRebuild (.writing tenant fetchSize) config limit now s).2.ids.next < idLimit) :
    let after := cleanRebuild (.writing tenant fetchSize) config limit now s
    Rebuilt config m limit s.tables after.1 after.2.tables ∧
    ∀ {s' : World} {k' : MatchKey} (tenant' : TenantId) (fetchSize' : ℕ) (now' : Datestamp),
      Reachable s' → s'.cache.Made → s'.tables.matchKey? config = .ok (some k') →
      k'.method = k.method → k'.params = k.params →
      (∀ row, row ∈ s'.tables.records ↔ row ∈ s.tables.records) →
      let after' := cleanRebuild (.writing tenant' fetchSize') config limit now' s'
      after'.2.ids.next < idLimit → ∃ κ : Equiv.Perm ClusterId,
        (∀ x v, after.2.tables.Owns config x v ↔ after'.2.tables.Owns config (κ x) v) ∧
        ∀ x r, after.2.tables.Holds config x r ↔ after'.2.tables.Holds config (κ x) r := by
  intro after
  have hafter := rebuilt_cleanRebuild h hcache hkey hmethod hids
  refine ⟨hafter, fun {s' k'} tenant' fetchSize' now' h' hcache' hkey' hname hparams hrecords ↦ ?_⟩
  intro after' hids'
  have hmethod' : k'.createMethod = .ok m := by
    rw [MatchKey.createMethod, hname, hparams]
    exact hmethod
  exact hafter.exists_renaming (rebuilt_cleanRebuild h' hcache' hkey' hmethod' hids') hrecords

namespace Sample

def title : MatchKey := ⟨"isbn", "jsonpath", .object [("expr", .string "$.title")], "ingest"⟩

def strings (values : List String) : Json := .array (values.map .string)

/-- Two records that share a value. -/
def direct : List Call :=
  [⟨.free, .insertMatchKey isbn⟩,
    ⟨.free, .storeRecord (keyOf "a") (strings ["x", "y"])⟩,
    ⟨.free, .storeRecord (keyOf "b") (strings ["y", "z"])⟩]

/-- The same two records after updates, a merge by a record that is deleted, and a change of the
parameters and back. -/
def winding : List Call :=
  [⟨.free, .insertMatchKey title⟩,
    ⟨.free, .storeRecord (keyOf "a") .null⟩,
    ⟨.free, .storeRecord (keyOf "b") (strings ["y", "z"])⟩,
    ⟨.free, .updateMatchKey isbn⟩,
    ⟨.free, .assign 5 ⟨Uuid.ofNat 1⟩ "isbn" ["y", "z"]⟩,
    ⟨.free, .storeRecord (keyOf "c") (strings ["w", "z"])⟩,
    ⟨.free, .assign 5 ⟨Uuid.ofNat 3⟩ "isbn" ["w", "z"]⟩,
    ⟨.free, .deleteRecord (keyOf "c") 5⟩,
    ⟨.free, .storeRecord (keyOf "a") (strings ["x", "y"])⟩]

theorem reachable_direct : Reachable (run blank direct) := by
  refine ⟨blank, direct, rfl, rfl, ?_⟩
  simp [direct, Operation.IsEngine, Operation.reading?]

theorem reachable_winding : Reachable (run blank winding) := by
  refine ⟨blank, winding, rfl, rfl, ?_⟩
  simp [winding, Operation.IsEngine, Operation.reading?, Datestamp.limit]

def owner : TenantId := ⟨"t", accepts_t⟩

/-- Rebuilt with small pages, and values cut to two characters. -/
def rebuilt (calls : List Call) : Except Fault (Option ReindexStats) × World :=
  cleanRebuild (.writing owner 1) "isbn" 2 9 (run blank calls)

end Sample

open Sample in
/-- A direct and a winding way to the same two records, which share a value. The third record and
its value are forgotten. -/
theorem winding_forgotten : ∃ m,
    (rebuilt winding).1 = .ok (some ⟨2, 0⟩) ∧
    Components "isbn" (Bears (run blank winding).tables m 2) (rebuilt winding).2.tables ∧
    (∀ x, ¬(rebuilt winding).2.tables.Owns "isbn" x "w") ∧
    ∃ κ : Equiv.Perm ClusterId,
      (∀ x v, (rebuilt winding).2.tables.Owns "isbn" x v ↔
        (rebuilt direct).2.tables.Owns "isbn" (κ x) v) ∧
      ∀ x r, (rebuilt winding).2.tables.Holds "isbn" x r ↔
        (rebuilt direct).2.tables.Holds "isbn" (κ x) r := by
  have hvalid : ((run blank winding).tables.matchKey? "isbn").toOption.join.any
      (fun k ↦ k.createMethod.isOk) = true := by
    decide +kernel
  have hsameKey : (run blank direct).tables.matchKeys = (run blank winding).tables.matchKeys := by
    decide +kernel
  have hrecords : (run blank direct).tables.records.Perm (run blank winding).tables.records := by
    decide +kernel
  have hreadable : ∀ row ∈ (run blank winding).tables.records,
      (Json.parse? row.payload).isSome = true := by
    decide +kernel
  have hcount : (run blank winding).tables.records.length = 2 := by decide +kernel
  have hforgotten : ∀ o ∈ (rebuilt winding).2.tables.owners, o.value ≠ "w" := by decide +kernel
  have hids : (rebuilt winding).2.ids.next < idLimit := by decide +kernel
  have hids' : (rebuilt direct).2.ids.next < idLimit := by decide +kernel
  have hcache : (run blank winding).cache.Made :=
    .of_isEmpty (by decide +kernel) (by decide +kernel)
  have hcache' : (run blank direct).cache.Made :=
    .of_isEmpty (by decide +kernel) (by decide +kernel)
  have hno : ∀ x, ¬(rebuilt winding).2.tables.Owns "isbn" x "w" := by
    intro x hx
    rw [Owns] at hx
    exact hforgotten _ hx rfl
  rw [rebuilt] at hids hids' hno
  rw [rebuilt, rebuilt]
  rcases hkey : (run blank winding).tables.matchKey? "isbn" with f | _ | k
  · rw [hkey] at hvalid
    cases hvalid
  · rw [hkey] at hvalid
    cases hvalid
  · rw [hkey] at hvalid
    change k.createMethod.isOk = true at hvalid
    rcases hmethod : k.createMethod with f | m
    · rw [hmethod] at hvalid
      cases hvalid
    · have hkey' : (run blank direct).tables.matchKey? "isbn" = .ok (some k) := by
        rw [← hkey, matchKey?, matchKey?, hsameKey]
      obtain ⟨hafter, hsame⟩ := clean_rebuild_forgets_history reachable_winding hcache hkey hmethod
        owner 1 2 9 hids
      obtain ⟨hanswer, -, hcomponents⟩ := hafter.readable fun row hrow ↦
        Option.isSome_iff_exists.mp (hreadable row hrow)
      rw [hcount] at hanswer
      refine ⟨m, hanswer, hcomponents, hno, ?_⟩
      exact hsame owner 1 9 reachable_direct hcache' hkey' rfl rfl
        (fun row ↦ hrecords.mem_iff) hids'

end RecordLinkage
