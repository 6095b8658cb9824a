import RecordLinkage.Proofs.Clustering.Savepoints
import RecordLinkage.Proofs.Clustering.Scan

/-!
# Records that fail are skipped

The method of a match key may refuse a payload. A record with such a payload is counted as failed
and otherwise passed over: computing a match key anew does to the world what assigning only the
other records does, in the same order. An assignment under a match key that is there does not fail
itself, so there are no other failures.

That nothing of a refused record is left needs no rollback in principle, since the method is asked
before anything is written; that the savepoint around the record gives back the very world in which
it was opened is what the comparison of savepoints with atomic work says.
-/

namespace RecordLinkage

open Work Clustering Tables

variable {s s' : World}

namespace Clustering

/-- The method refuses the payload of a record. -/
def Recipe.refuses (recipe : Recipe) (record : Record) : Bool :=
  recipe.method.matchValues record.payload matches .error _

/-- The records that the method does not refuse, each with the set that it is assigned with. -/
def Recipe.accepted (recipe : Recipe) (records : List Record) : List (RecordId × List String) :=
  records.filterMap fun record ↦
    match recipe.method.matchValues record.payload with
    | .ok values => some (record.id, truncate recipe.limit values)
    | .error _ => none

/-- Assigns records with the given sets, one after the other. -/
def assignEach (recipe : Recipe) : List (RecordId × List String) → Work Unit
  | [] => return ()
  | (r, values) :: rest => do
    let _ ← assign recipe.now r recipe.config values
    assignEach recipe rest

variable {recipe : Recipe} {record : Record}

theorem assignEach_grows (recipe : Recipe) (entries : List (RecordId × List String)) :
    Respects Grows (assignEach recipe entries) := by
  induction entries with
  | nil => exact .pure Lasting.grows ()
  | cons e rest ih => exact .bind Lasting.grows (assign_grows _ _ _ _) fun _ ↦ ih

/-! ## What is refused and what is accepted -/

section Verdict

variable {f : Fault} {values : List String}

theorem refuses_of_error (h : recipe.method.matchValues record.payload = .error f) :
    recipe.refuses record = true := by
  rw [Recipe.refuses, h]

theorem not_refuses_of_ok (h : recipe.method.matchValues record.payload = .ok values) :
    ¬recipe.refuses record = true := by
  rw [Recipe.refuses, h]
  exact Bool.false_ne_true

theorem accepted_cons_of_error (h : recipe.method.matchValues record.payload = .error f)
    (rest : List Record) : recipe.accepted (record :: rest) = recipe.accepted rest := by
  rw [Recipe.accepted, List.filterMap_cons, h]
  rfl

theorem accepted_cons_of_ok (h : recipe.method.matchValues record.payload = .ok values)
    (rest : List Record) : recipe.accepted (record :: rest)
      = (record.id, truncate recipe.limit values) :: recipe.accepted rest := by
  rw [Recipe.accepted, List.filterMap_cons, h]
  rfl

end Verdict

/-- Where nothing is refused, every record is assigned with its set. -/
theorem accepted_eq_map {f : Json → List String}
    (hf : ∀ payload, recipe.method.matchValues payload = .ok (f payload)) (records : List Record) :
    recipe.accepted records
      = records.map fun record ↦ (record.id, truncate recipe.limit (f record.payload)) := by
  rw [← List.filterMap_eq_map]
  simp only [Recipe.accepted, hf]
  rfl

theorem countP_refuses_eq_zero {f : Json → List String}
    (hf : ∀ payload, recipe.method.matchValues payload = .ok (f payload)) (records : List Record) :
    records.countP recipe.refuses = 0 := by
  rw [List.countP_eq_zero]
  intro record _
  exact not_refuses_of_ok (hf record.payload)

/-! ## One record -/

/-- **A record whose payload is refused leaves no trace.** -/
theorem go_reindexRecord_of_refused {f : Fault}
    (h : recipe.method.matchValues record.payload = .error f) (s : World) :
    (atomically (reindexRecord recipe record)).go s = (.error f, s) := by
  rw [go_atomically, reindexRecord, go_bind, go_ofExcept, h]

/-- Any other record is assigned with the set of its payload. -/
theorem go_reindexRecord_of_accepted {values : List String}
    (h : recipe.method.matchValues record.payload = .ok values) (ho : s.Orderly)
    (hkey : s.tables.hasMatchKey recipe.config = true) (hr : s.tables.Stores record.id)
    (hids : s.ids.next < idLimit) : ∃ a s',
      (assign recipe.now record.id recipe.config (truncate recipe.limit values)).go s
        = (.ok a, s') ∧
      (atomically (reindexRecord recipe record)).go s = (.ok (), s') := by
  obtain ⟨a, s', hgo⟩ := exists_assign recipe.now ho.form hkey hr
    (Sorted.nodup_ofList (values.map (cut recipe.limit))) (ho.fresh_mark hids)
  refine ⟨a, s', hgo, go_atomically_ok.mpr ?_⟩
  rw [reindexRecord, go_bind, go_ofExcept, h]
  exact go_bind_ok.mpr ⟨a, s', hgo, rfl⟩

/-! ## Records one after the other -/

theorem go_reindexRecords_skip (records : List Record) (stats : ReindexStats) (ho : s.Orderly)
    (hkey : s.tables.hasMatchKey recipe.config = true)
    (hstored : ∀ record ∈ records, s.tables.Stores record.id)
    (hids : ((reindexRecords recipe stats records).go s).2.ids.next < idLimit) : ∃ s',
      (reindexRecords recipe stats records).go s
        = (.ok ⟨stats.total + records.length, stats.failed + records.countP recipe.refuses⟩, s') ∧
      (assignEach recipe (recipe.accepted records)).go s = (.ok (), s') := by
  induction records generalizing stats s with
  | nil => exact ⟨s, rfl, rfl⟩
  | cons record rest ih =>
    rcases hvalues : recipe.method.matchValues record.payload with f | values
    · have hstep : (reindexRecords recipe stats (record :: rest)).go s
          = (reindexRecords recipe ⟨stats.total + 1, stats.failed + 1⟩ rest).go s := by
        rw [reindexRecords, go_bind, go_outcome, go_reindexRecord_of_refused hvalues]
        rfl
      rw [hstep] at hids ⊢
      obtain ⟨s', hgo, hassign⟩ := ih _ ho hkey (fun other hother ↦ hstored other (.tail _ hother))
        hids
      refine ⟨s', ?_, accepted_cons_of_error hvalues rest ▸ hassign⟩
      rw [hgo, List.countP_cons_of_pos (refuses_of_error hvalues), List.length_cons]
      simp only [Nat.add_assoc, Nat.add_comm 1]
    · have hgrows := reindexRecords_grows recipe stats (record :: rest) s
      obtain ⟨a, s₁, hassign, hfirst⟩ := go_reindexRecord_of_accepted hvalues ho hkey
        (hstored record (.head _)) (lt_of_le_of_lt hgrows hids)
      have hstep : (reindexRecords recipe stats (record :: rest)).go s
          = (reindexRecords recipe ⟨stats.total + 1, stats.failed⟩ rest).go s₁ := by
        rw [reindexRecords, go_bind, go_outcome, hfirst]
        rfl
      rw [hstep] at hids ⊢
      have hb : s₁.ids.next ≤ idLimit :=
        (lt_of_le_of_lt (reindexRecords_grows recipe _ rest s₁) hids).le
      have ha := assigned_of_ok ho.form hassign
      obtain ⟨s', hgo, hrest⟩ := ih _ (((assign_keepsOrder _ _ _ _) hassign).2 hb ho)
        (by rw [hasMatchKey, ha.matchKeys]; exact hkey)
        (fun other hother ↦ by rw [Stores, ha.records]; exact hstored other (.tail _ hother)) hids
      refine ⟨s', ?_, ?_⟩
      · rw [hgo, List.countP_cons_of_neg (not_refuses_of_ok hvalues), List.length_cons]
        simp only [Nat.add_assoc, Nat.add_comm 1]
      · rw [accepted_cons_of_ok hvalues]
        exact go_bind_ok.mpr ⟨a, s₁, hassign, hrest⟩

end Clustering

/-- **Records that fail are skipped.** In a world that the engine leads to, where every payload can
be read, computing a match key anew ends without error whatever the method refuses. All records are
counted, and as failed those whose payload is refused. What it leaves in the world is what assigning
the other records leaves there, one after the other by ascending identifier; this is also what is
committed when each record has a savepoint in one transaction, of any name. A refused record by
itself leaves no trace. Where a payload cannot be read, the whole fails and is undone. -/
theorem failing_records_skipped (h : Reachable s) (recipe : Recipe)
    (hkey : s.tables.hasMatchKey recipe.config = true) {pageSize : ℕ} (hsize : 0 < pageSize)
    (hids : ((reindexAll recipe pageSize).go s).2.ids.next < idLimit) :
    ((∀ row ∈ s.tables.records, Readable row) → ∃ records, s.tables.Inventory records ∧ ∃ s',
      (reindexAll recipe pageSize).go s
        = (.ok ⟨s.tables.records.length, records.countP recipe.refuses⟩, s') ∧
      (assignEach recipe (recipe.accepted records)).go s = (.ok (), s') ∧
      ∀ (d : Database) (name : String), d.world = s → d.rollback.access.check = .ok () →
        (d.recompute name recipe pageSize).1
          = .ok ⟨s.tables.records.length, records.countP recipe.refuses⟩ ∧
        (d.recompute name recipe pageSize).2.world = s') ∧
    (∀ record, recipe.refuses record = true → ∀ w,
      ((atomically (reindexRecord recipe record)).go w).2 = w) ∧
    (¬(∀ row ∈ s.tables.records, Readable row) → ∃ s',
      (atomically (reindexAll recipe pageSize)).go s = (.error .invalidPayload, s') ∧
        s'.tables = s.tables) := by
  have hform := h.sound.form
  have hb : s.ids.next ≤ idLimit := ((reindexAll_grows recipe pageSize s).trans_lt hids).le
  refine ⟨fun hreadable ↦ ?_, fun record hrefuses w ↦ ?_,
    fun hreadable ↦ go_reindexAll_error recipe hform hreadable hsize⟩
  · obtain ⟨read, hread⟩ := hform.exists_reading
    have hall := go_allPages recipe hform hread hreadable hsize (Nat.lt_succ_self _)
    rw [← go_reindexAll] at hall
    rw [hall] at hids
    obtain ⟨s', hgo, hassign⟩ := go_reindexRecords_skip _ ⟨0, 0⟩ (h.orderly hb) hkey
      (stores_of_tells hread) hids
    rw [List.length_map, (ascending_perm _).length_eq, Nat.zero_add, Nat.zero_add] at hgo
    have hanswer := hall.trans hgo
    refine ⟨_, hform.inventory hread hreadable, s', hanswer, hassign, ?_⟩
    rintro d name rfl hfree
    obtain ⟨hresult, hworld, -⟩ := d.recompute_eq name recipe pageSize hfree
    rw [hresult, hworld, go_atomically_ok.mpr hanswer, hanswer]
    exact ⟨rfl, rfl⟩
  · rcases hvalues : recipe.method.matchValues record.payload with f | values
    · rw [go_reindexRecord_of_refused hvalues]
    · exact absurd hrefuses (not_refuses_of_ok hvalues)

namespace Sample

/-- Only texts are accepted, and each is its own match value. -/
def textual : Method := ⟨"textual", fun payload ↦
  match payload with
  | .string s => .ok [s]
  | _ => .error (.matchKey "not a text")⟩

/-- The first record has a cluster already. Its payload is none that is accepted, nor is that of the
third one. -/
def mixed : List Call :=
  [⟨.free, .insertMatchKey isbn⟩,
    ⟨.free, .storeRecord (keyOf "a") .null⟩,
    ⟨.free, .storeRecord (keyOf "b") (.string "x")⟩,
    ⟨.free, .storeRecord (keyOf "c") .null⟩,
    ⟨.free, .assign 5 ⟨Uuid.ofNat 0⟩ "isbn" ["w"]⟩]

theorem reachable_mixed : Reachable (run blank mixed) := by
  refine ⟨blank, mixed, rfl, rfl, ?_⟩
  simp [mixed, Operation.IsEngine, Operation.reading?, Datestamp.limit]

end Sample

open Sample in
/-- Of three records two are refused, and the one that has a cluster stays in it as it was. -/
theorem refused_record_stays : ∃ entries s',
    (reindexAll ⟨9, "isbn", textual, 600⟩ 2).go (run blank mixed) = (.ok ⟨3, 2⟩, s') ∧
      (assignEach ⟨9, "isbn", textual, 600⟩ entries).go (run blank mixed) = (.ok (), s') ∧
      s'.tables.clusterOf? ⟨Uuid.ofNat 0⟩ "isbn" = .ok (some ⟨Uuid.ofNat 3⟩) ∧
      s'.tables.marks = [⟨⟨Uuid.ofNat 3⟩, "isbn", 5⟩, ⟨⟨Uuid.ofNat 4⟩, "isbn", 9⟩] := by
  have hreadable : ∀ row ∈ (run blank mixed).tables.records,
      (Json.parse? row.payload).isSome = true := by
    decide +kernel
  have hanswer : ((reindexAll ⟨9, "isbn", textual, 600⟩ 2).go (run blank mixed)).1
      = .ok ⟨3, 2⟩ := by
    decide +kernel
  have hcluster : ((reindexAll ⟨9, "isbn", textual, 600⟩ 2).go
      (run blank mixed)).2.tables.clusterOf? ⟨Uuid.ofNat 0⟩ "isbn"
        = .ok (some ⟨Uuid.ofNat 3⟩) := by
    decide +kernel
  have hmarks : ((reindexAll ⟨9, "isbn", textual, 600⟩ 2).go (run blank mixed)).2.tables.marks
      = [⟨⟨Uuid.ofNat 3⟩, "isbn", 5⟩, ⟨⟨Uuid.ofNat 4⟩, "isbn", 9⟩] := by
    decide +kernel
  obtain ⟨records, -, s', hgo, hassign, -⟩ := (failing_records_skipped reachable_mixed
    ⟨9, "isbn", textual, 600⟩ (by decide +kernel) (show 0 < 2 by decide) (by decide +kernel)).1
    fun row hrow ↦ Option.isSome_iff_exists.mp (hreadable row hrow)
  rw [hgo] at hanswer hcluster hmarks
  refine ⟨_, s', ?_, hassign, hcluster, hmarks⟩
  rw [hgo]
  exact Prod.ext hanswer rfl

end RecordLinkage
