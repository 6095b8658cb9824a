import RecordLinkage.Proofs.CommandLine.Steps
import RecordLinkage.Proofs.History.Origin
import RecordLinkage.Proofs.Identity.Naming
import RecordLinkage.Proofs.Store.RecordMap

/-!
# Records by the name of their source

A library may spell its name as it likes, as long as only the case of letters differs: whatever it
does under one spelling concerns the records that it has ingested under another. Records are listed,
deleted and written by comparing the name that is kept with them, letter by letter, so this is a
matter of what is kept: the name in upper case, whatever was given.

A submission reaches the record of its source that has its local identifier and version, and a whole
batch changes no record of another source. Commands take the name as it is given, and one that does
not name a source is refused before anything is looked at.
-/

namespace RecordLinkage

open Work Tables

variable {s s' : World} {now : Datestamp} {i : Ingester} {submission : Submission}

/-! ## What a submission does to its record -/

/-- What a submission that does not fail does to the row of its key. -/
inductive Outcome.Alters (payload : Option Json) :
    Outcome → Option RecordRow → Option RecordRow → Prop
  | inserted {json : Json} {row : RecordRow} (hjson : payload = some json)
      (hrow : row.payload = json.text) : Alters payload .inserted none (some row)
  | updated {json : Json} {row : RecordRow} (hjson : payload = some json) :
      Alters payload .updated (some row) (some { row with payload := json.text })
  | deleted {row : RecordRow} : Alters payload .deleted (some row) none
  | ignored : Alters payload .ignored none none

namespace Ingester

theorem alters_of_delete {localId : String} {outcome : Outcome} (payload : Option Json)
    (hgo : (i.delete now localId).go s = (.ok outcome, s')) :
    outcome.Alters payload (s.tables.recordOf? (i.key localId))
      (s'.tables.recordOf? (i.key localId)) := by
  rw [delete, go_bind, go_update] at hgo
  obtain ⟨houtcome, rfl⟩ := Prod.mk.inj hgo
  obtain rfl := Except.ok.inj houtcome
  rw [deleteRecord_fst, (recordOf?_deleteRecord s.tables (i.key localId) now).1]
  rcases s.tables.recordOf? (i.key localId) with - | row
  · exact .ignored
  · exact .deleted

theorem alters_of_store {localId : String} {json : Json} {outcome : Outcome} (ho : s.Orderly)
    (hids : s'.ids.next < idLimit) (hgo : (i.store now localId json).go s = (.ok outcome, s')) :
    outcome.Alters (some json) (s.tables.recordOf? (i.key localId))
      (s'.tables.recordOf? (i.key localId)) := by
  obtain ⟨-, hgrows, -, -, r, hrow, hold, -⟩ := stored_of_store ho hids hgo
  rw [outcome_of_store ho (hgrows.trans_lt hids) hgo, hrow]
  rcases hbefore : s.tables.recordOf? (i.key localId) with - | row
  · exact .inserted rfl rfl
  · have hnew : (⟨.intact r, i.key localId, json.text⟩ : RecordRow)
        = { row with payload := json.text } := by
      rw [← hold row hbefore, ← key_of_recordOf? hbefore]
    rw [hnew]
    exact .updated rfl

/-- **A submission reaches the row of its key**, and no other. -/
theorem exists_alters {outcome : Outcome} (ho : s.ids.next ≤ idLimit → s.Orderly)
    (hids : s'.ids.next < idLimit) (hgo : (i.ingest now submission).go s = (.ok outcome, s')) :
    ∃ localId, i.localId submission = .ok localId ∧
      outcome.Alters submission.payload (s.tables.recordOf? (i.key localId))
        (s'.tables.recordOf? (i.key localId)) := by
  rcases i.go_ingest now submission s with ⟨f, s₂, hfail, -, -⟩ |
    ⟨localId, s₁, outcome', s₂, hlocal, htables, hgrows, hattempt, hok⟩
  · cases (Prod.mk.inj (hfail.symm.trans hgo)).1
  · obtain ⟨houtcome, rfl⟩ := Prod.mk.inj (hok.symm.trans hgo)
    obtain rfl := Except.ok.inj houtcome
    refine ⟨localId, hlocal, ?_⟩
    obtain ⟨-, hact⟩ := attempt_ok hattempt
    rw [← htables]
    rw [act] at hact
    split_ifs at hact
    · exact alters_of_delete _ hact
    · split at hact
      · next json hjson =>
        -- Attempts before this one may have taken identifiers.
        have hgrows' : Grows s₁ s₂ := (i.store_grows now localId json).achieves hact
        have hle : s₁.ids.next ≤ idLimit := hgrows'.trans hids.le
        have ho₁ := (lasting_keepsOrder.idle htables hgrows).2 hle (ho (hgrows.trans hle))
        rw [hjson]
        exact alters_of_store ho₁ hids hact
      · cases (Prod.mk.inj hact).1

end Ingester

/-! ## What is done under the name of a source -/

/-- **What is done under the name of a source concerns some of the records**, and no others. -/
structure Addresses (s : World) (source : SourceId) (concerned : RecordRow → Prop) : Prop where
  /-- They are listed. -/
  listed : ∃ rows, Answers rows (s.tables.listRecords (some source)) ∧
    rows.Pairwise (fun a b ↦ a.key.rank < b.key.rank) ∧
    ∀ row, row ∈ rows ↔ row ∈ s.tables.records ∧ concerned row
  /-- They are counted and deleted. -/
  deleted : ∀ now,
    {row | row ∈ s.tables.records ∧ concerned row}.encard = (s.tables.deleteSource source now).1 ∧
    ∀ row, row ∈ (s.tables.deleteSource source now).2.records ↔
      row ∈ s.tables.records ∧ ¬concerned row
  /-- A submission that does not fail reaches the one that it names. -/
  reached : ∀ (i : Ingester) now submission outcome s', i.source = source →
    (i.ingest now submission).go s = (.ok outcome, s') → s'.ids.next < idLimit →
    ∃ localId, i.localId submission = .ok localId ∧
      (∀ row ∈ s.tables.records, row.key = i.key localId ↔
        concerned row ∧ row.key.localId = localId ∧ row.key.version = i.version) ∧
      outcome.Alters submission.payload (s.tables.recordOf? (i.key localId))
        (s'.tables.recordOf? (i.key localId))
  /-- A batch, however it ends, leaves the others alone and adds none to them. -/
  spared : ∀ access tenant request settings schedule now input, request.source = source →
    let s' := ((ingestBatch access tenant request settings schedule now input).go s).2
    (∀ row ∈ s.tables.records, ¬concerned row → row ∈ s'.tables.records) ∧
      ∀ row ∈ s'.tables.records, row ∈ s.tables.records ∨ row.key.source = source

/-- An ingester is for the source of its request. -/
theorem Ingester.source_of_create {access : Access} {tenant : TenantId} {request : IngestRequest}
    {settings : IngestSettings} (hgo : (create access tenant request settings).go s = (.ok i, s')) :
    i.source = request.source := by
  obtain ⟨path, s₁, -, hgo⟩ := go_bind_ok.mp hgo
  obtain ⟨all, s₂, -, hgo⟩ := go_bind_ok.mp hgo
  obtain ⟨keys, s₃, -, hgo⟩ := go_bind_ok.mp hgo
  rw [← Except.ok.inj (Prod.mk.inj hgo).1]

/-- A batch writes records of its source only. -/
theorem ingestBatch_touches (access : Access) (tenant : TenantId) (request : IngestRequest)
    (settings : IngestSettings) (schedule : Schedule) (input : List Char) :
    Respects (Touches (·.source = request.source) (·.source = request.source))
      (ingestBatch access tenant request settings schedule now input) := by
  have hL := lasting_touches (·.source = request.source) (·.source = request.source)
  intro s
  have hcreated := Ingester.respects_create hL access tenant request settings s
  rcases hcreate : (Ingester.create access tenant request settings).go s with ⟨f | i, s₀⟩
  · rw [hcreate] at hcreated
    obtain ⟨report, hgo, -⟩ := go_ingestBatch_error hcreate schedule now input
    rwa [hgo]
  · rw [hcreate] at hcreated
    obtain ⟨b, hgo, -⟩ := go_ingestBatch hcreate schedule now input
    have hsource := Ingester.source_of_create hcreate
    rw [hgo]
    refine hL.trans hcreated (i.carry_respects now hL (fun submission ↦ ?_) _ s₀)
    exact i.ingest_touches (fun _ _ _ ↦ hsource) fun _ _ ↦ hsource

/-- Comparing what is kept with the name is enough. -/
theorem addresses_of_iff {source : SourceId} {concerned : RecordRow → Prop}
    (hform : s.tables.Wellformed) (ho : s.ids.next ≤ idLimit → s.Orderly)
    (h : ∀ row ∈ s.tables.records, concerned row ↔ row.key.source = source) :
    Addresses s source concerned where
  listed := by
    obtain ⟨rows, hanswers, hsorted, hmem⟩ := hform.refines.listed (some source)
    refine ⟨rows, hanswers, hsorted, fun row ↦ ?_⟩
    rw [hmem, hform.has_iff]
    refine and_congr_right fun hrow ↦ ?_
    rw [h row hrow]
    exact ⟨fun hall ↦ hall source rfl, fun hsource s hs ↦ Option.some.inj hs ▸ hsource⟩
  deleted now := by
    constructor
    · refine encard_eq_countP (fun row ↦ row) ?_ fun row ↦ ?_
      · rw [List.map_id']
        exact hform.recordKey_nodup.of_map.sublist List.filter_sublist
      · rw [Set.mem_ofPred_eq]
        simp only [decide_eq_true_eq, exists_eq_right_right]
        exact and_congr_right (h row)
    · intro row
      have hremaining : row ∈ (s.tables.deleteSource source now).2.records ↔
          row ∈ s.tables.records ∧ (!decide (row.key.source = source)) = true := List.mem_filter
      rw [hremaining, Bool.not_eq_true', decide_eq_false_iff_not]
      exact and_congr_right fun hrow ↦ not_congr (h row hrow).symm
  reached i now submission outcome s' hsource hgo hids := by
    obtain ⟨localId, hlocal, halters⟩ := Ingester.exists_alters ho hids hgo
    refine ⟨localId, hlocal, fun row hrow ↦ ?_, halters⟩
    rw [h row hrow, ← hsource]
    constructor
    · intro hkey
      rw [hkey]
      exact ⟨rfl, rfl, rfl⟩
    · rintro ⟨hrowSource, hlocalId, hversion⟩
      rw [Ingester.key, ← hrowSource, ← hlocalId, ← hversion]
  spared access tenant request settings schedule now input hsource := by
    obtain ⟨-, hgained, hlost⟩ :=
      ingestBatch_touches access tenant request settings schedule input s hform
    refine ⟨fun row hrow hno ↦ ?_, fun row hrow ↦ ?_⟩
    · refine (hlost row hrow).resolve_right fun heq ↦ hno ?_
      exact (h row hrow).mpr (heq.trans hsource)
    · exact (hgained row hrow).imp_right fun heq ↦ heq.trans hsource

/-! ## Commands -/

namespace CommandLine

variable {c : Context} {spelling spelling' : String}

/-- Commands that are given names of one source do the same. -/
structure Alike (c : Context) (spelling spelling' : String) : Prop where
  ingest : CommandLine.ingest c spelling = CommandLine.ingest c spelling'
  listRecords : CommandLine.listRecords c (some spelling)
    = CommandLine.listRecords c (some spelling')
  deleteSource : CommandLine.deleteSource c spelling = CommandLine.deleteSource c spelling'

/-- Commands that are given a text are refused with a fault, and nothing happens. -/
structure Refused (c : Context) (spelling : String) (f : Fault) : Prop where
  ingest : ∀ version path window file s,
    (CommandLine.ingest c spelling version path window file).go s = (.error (.fault f), s)
  listRecords : ∀ s, (CommandLine.listRecords c (some spelling)).go s = (.error (.fault f), s)
  deleteSource : ∀ s, (CommandLine.deleteSource c spelling).go s = (.error (.fault f), s)

theorem alike_of_parse_eq (h : SourceId.parse spelling = SourceId.parse spelling') :
    Alike c spelling spelling' where
  ingest := by
    funext version path window file
    rw [ingest, ingest, h]
  listRecords := by rw [listRecords, listRecords, Step.optional, Step.optional, h]
  deleteSource := by rw [deleteSource, deleteSource, h]

theorem refused_of_parse_eq {f : Fault} (h : SourceId.parse spelling = .error f) :
    Refused c spelling f where
  ingest version path window file s := by
    rw [ingest, h, Step.go_bind, Step.go_ofExcept]
    rfl
  listRecords s := by
    rw [listRecords, Step.optional, h, Step.go_bind, Step.go_bind, Step.go_ofExcept]
    rfl
  deleteSource s := by
    rw [deleteSource, h, Step.go_bind, Step.go_ofExcept]
    rfl

end CommandLine

/-! ## Spellings of a source -/

/-- **The case in which the name of a source is spelled does not matter.** A text is read as a name
if it consists of 1 to 16 letters, digits and marks; what is kept of a name is read as that name,
and two names are the same up to the case of their letters. So whatever the engine has done, the
names that are kept are names and are read as they are, and every record was ingested under some
spelling, and under several only if they differ in case. What is done under a spelling concerns the
records that were ingested under it or under one that differs from it in case, and no others.
Commands do the same for spellings that differ in case, and refuse what is not a name. -/
theorem sources_named_up_to_case :
    (∀ s, (∃ a, SourceId.parse s = .ok a) ↔ SourceId.IsName s) ∧
    (∀ a : SourceId, SourceId.parse a.text = .ok a) ∧
    (∀ s t a b, SourceId.parse s = .ok a → SourceId.parse t = .ok b →
      (a = b ↔ SourceId.SameName s t)) ∧
    (∀ (s₀ : World) (calls : List SpelledCall), s₀.tables = .empty →
      (∀ c ∈ calls, c.op.IsEngine ∧ ∀ now ∈ c.op.reading?, now < Datestamp.limit) →
      (∀ row ∈ (runSpelled s₀ calls).tables.records, SourceId.IsName row.key.source.text ∧
        SourceId.parse row.key.source.text = .ok row.key.source ∧
        (∃ s, IngestedAs s₀ calls s row) ∧
        ∀ s t, IngestedAs s₀ calls s row → IngestedAs s₀ calls t row → SourceId.SameName s t) ∧
      ∀ t source, SourceId.parse t = .ok source →
        Addresses (runSpelled s₀ calls) source fun row ↦
          ∃ s, IngestedAs s₀ calls s row ∧ SourceId.SameName s t) ∧
    ∀ (c : CommandLine.Context) (s t : String),
      (SourceId.IsName s → SourceId.SameName s t → CommandLine.Alike c s t) ∧
      (¬SourceId.IsName t → CommandLine.Refused c t
        (.validation ("sourceId '" ++ t ++ "' does not match " ++ SourceId.pattern))) := by
  refine ⟨fun s ↦ SourceId.exists_parse_iff, SourceId.parse_text,
    fun s t a b ↦ SourceId.eq_iff_sameName, fun s₀ calls hempty hcalls ↦ ⟨?_, ?_⟩,
    fun c s t ↦ ⟨fun hname hsame ↦ ?_, fun hname ↦ ?_⟩⟩
  · intro row hrow
    have hparse := SourceId.parse_text row.key.source
    refine ⟨SourceId.exists_parse_iff.mp ⟨_, hparse⟩, hparse,
      exists_ingestedAs hempty (fun c hc ↦ (hcalls c hc).1) hrow, fun s t hs ht ↦ ?_⟩
    exact (SourceId.eq_iff_sameName hs.parse_eq ht.parse_eq).mp rfl
  · intro t source ht
    have hreachable : Reachable (runSpelled s₀ calls) := by
      refine ⟨s₀, _, hempty, rfl, fun c hc ↦ ?_⟩
      obtain ⟨spelled, hspelled, rfl⟩ := List.mem_map.mp hc
      exact hcalls spelled hspelled
    refine addresses_of_iff hreachable.sound.form hreachable.orderly fun row hrow ↦ ?_
    constructor
    · rintro ⟨s, hs, hsame⟩
      exact (SourceId.eq_iff_sameName hs.parse_eq ht).mpr hsame
    · intro hsource
      obtain ⟨s, hs⟩ := exists_ingestedAs hempty (fun c hc ↦ (hcalls c hc).1) hrow
      exact ⟨s, hs, (SourceId.eq_iff_sameName hs.parse_eq ht).mp hsource⟩
  · obtain ⟨a, ha⟩ := SourceId.exists_parse_iff.mpr hname
    exact CommandLine.alike_of_parse_eq (ha.trans (hsame.parse_eq ha).symm)
  · exact CommandLine.refused_of_parse_eq (SourceId.parse_of_not_isName hname)

namespace Sample

/-- Another library. -/
def branch : SourceId := ⟨"B/1", by decide, by decide⟩

/-- The first library spells its name in lower case, and so does the other one. -/
def inLowerCase : List SpelledCall :=
  [⟨⟨.free, .storeRecord (keyOf "a") .null⟩, "a", fun _ h ↦ Option.some.inj h ▸ rfl⟩] ++
    [⟨⟨.free, .storeRecord ⟨"a", branch, 1⟩ .null⟩, "b/1", fun _ h ↦ Option.some.inj h ▸ rfl⟩]

end Sample

open Sample in
/-- Under the name in upper case, the first library finds its own record and not the other one. -/
theorem found_in_upper_case : ∃ own other rows,
    IngestedAs blank inLowerCase "a" own ∧ IngestedAs blank inLowerCase "b/1" other ∧
      Answers rows ((runSpelled blank inLowerCase).tables.listRecords (some library)) ∧
      own ∈ rows ∧ other ∉ rows := by
  have hcalls : ∀ c ∈ inLowerCase,
      c.op.IsEngine ∧ ∀ now ∈ c.op.reading?, now < Datestamp.limit := by
    simp [inLowerCase, Operation.IsEngine, Operation.reading?]
  obtain ⟨hrows, haddresses⟩ := sources_named_up_to_case.2.2.2.1 blank inLowerCase rfl hcalls
  obtain ⟨rows, hanswers, -, hmem⟩ := (haddresses "A" library rfl).listed
  let own : RecordRow := ⟨.intact ⟨Uuid.ofNat 0⟩, keyOf "a", "null"⟩
  let other : RecordRow := ⟨.intact ⟨Uuid.ofNat 1⟩, ⟨"a", branch, 1⟩, "null"⟩
  have hown : own ∈ (runSpelled blank inLowerCase).tables.records := by decide +kernel
  have hother : other ∈ (runSpelled blank inLowerCase).tables.records := by decide +kernel
  have hfirst : IngestedAs blank inLowerCase "a" own := by
    have hstored := @IngestedAs.stored blank [] inLowerCase[0] own (by decide +kernel) rfl
      (by decide +kernel)
    exact hstored.kept rfl rfl hown
  have hsecond : IngestedAs blank inLowerCase "b/1" other := .stored (by decide +kernel) rfl hother
  refine ⟨own, other, rows, hfirst, hsecond, hanswers, ?_, fun hlisted ↦ ?_⟩
  · exact (hmem own).mpr ⟨hown, "a", hfirst, rfl⟩
  · obtain ⟨spelling, hspelling, hsame⟩ := ((hmem other).mp hlisted).2
    have hsame' := (hrows other hother).2.2.2 "b/1" spelling hsecond hspelling
    exact absurd (hsame'.trans hsame) (by decide)

end RecordLinkage
