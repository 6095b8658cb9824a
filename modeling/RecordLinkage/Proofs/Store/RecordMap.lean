import Mathlib.Data.Prod.Lex
import RecordLinkage.Proofs.Ingest.Dealing
import RecordLinkage.Proofs.Clustering.Agreement
import RecordLinkage.Proofs.Clustering.Harvest

/-!
# Records as a map

What is stored of records is a map from keys to identifiers and payloads. Storing under a key
inserts an entry or replaces its payload, deleting takes out one entry or those of a source. All
that the map leaves open is the identifier of a new entry: it is one that was never used before, by
no record that has ever been stored.

The map is read in two orders. A listing is ascending by source, version and local identifier, and
pages are ascending by identifier. Either way payloads are read, and one that cannot be read spoils
the whole answer.

## How an entry is known to be new

An identifier is taken from the supply each time that something is to be stored, and the entry is
new exactly if it comes back. So what has to be known of a run is that no record, past or present,
has the identifier that the supply is about to hand out.
-/

namespace RecordLinkage

open Work Tables

/-! ## Commands -/

/-- A change to the records. -/
inductive RecordCommand where
  /-- Stores a payload under a key. -/
  | upsert (key : RecordKey) (payload : Json)
  /-- Deletes the record of a key. -/
  | delete (key : RecordKey) (now : Datestamp)
  /-- Deletes the records of a source. -/
  | deleteSource (source : SourceId) (now : Datestamp)

/-- What a change to the records answers. -/
inductive RecordAnswer where
  /-- The identifier of the record, and whether the record is new. -/
  | stored (id : RecordId) (created : Bool)
  /-- Whether there was a record to delete. -/
  | found (present : Bool)
  /-- How many records there were to delete. -/
  | removed (count : ℕ)
  deriving DecidableEq, Repr

namespace RecordCommand

/-- What a command does. -/
def work : RecordCommand → Work RecordAnswer
  | upsert key payload => do
    let (candidate, cell) ← Ingester.enroll key payload
    let id ← Work.ofExcept cell.read
    return .stored id (id = candidate)
  | delete key now => do return .found (← update (·.deleteRecord key now))
  | deleteSource source now => do return .removed (← update (·.deleteSource source now))

/-- A command does not take out the entry of a key. -/
def Spares (key : RecordKey) : RecordCommand → Prop
  | upsert _ _ => True
  | delete key' _ => key' ≠ key
  | deleteSource source _ => key.source ≠ source

end RecordCommand

/-- The identifiers that an answer gives out. -/
def RecordAnswer.ids : RecordAnswer → Set RecordId
  | stored id _ => {id}
  | found _ | removed _ => ∅

/-! ## The map -/

/-- Keys with the identifiers of their records and with payloads, as text. -/
abbrev RecordMap := RecordKey → Option (RecordId × String)

namespace RecordMap

variable {map map' : RecordMap} {used : Set RecordId} {c : RecordCommand} {a : RecordAnswer}
  {commands before after : List RecordCommand} {answers : List RecordAnswer} {key : RecordKey}
  {id : RecordId} {payload : String}

/-- A row says what the map has under its key. -/
def Has (map : RecordMap) (row : RecordRow) : Prop :=
  ∃ id, row.id = .intact id ∧ map row.key = some (id, row.payload)

/-- **What a command does to a map and answers**, when some identifiers are used already. -/
inductive Step (used : Set RecordId) (map : RecordMap) :
    RecordCommand → RecordAnswer → RecordMap → Prop
  | replace {key : RecordKey} {payload : Json} {id : RecordId} {old : String}
    (hkey : map key = some (id, old)) :
    Step used map (.upsert key payload) (.stored id false)
      (Function.update map key (some (id, payload.text)))
  | insert {key : RecordKey} {payload : Json} {id : RecordId} (hkey : map key = none)
    (hnew : id ∉ used) :
    Step used map (.upsert key payload) (.stored id true)
      (Function.update map key (some (id, payload.text)))
  | delete {key : RecordKey} {now : Datestamp} :
    Step used map (.delete key now) (.found (map key).isSome) (Function.update map key none)
  | deleteSource {source : SourceId} {now : Datestamp} {count : ℕ}
    (hcount : {key | key.source = source ∧ (map key).isSome}.encard = count) :
    Step used map (.deleteSource source now) (.removed count)
      (fun key ↦ if key.source = source then none else map key)

/-- What commands do one after the other. Identifiers that were given out are used. -/
inductive Runs :
    Set RecordId → RecordMap → List RecordCommand → List RecordAnswer → RecordMap → Prop
  | nil {used : Set RecordId} {map : RecordMap} : Runs used map [] [] map
  | cons {used : Set RecordId} {map map' map'' : RecordMap} {c : RecordCommand} {a : RecordAnswer}
    {commands : List RecordCommand} {answers : List RecordAnswer} (hstep : Step used map c a map')
    (hrest : Runs (used ∪ a.ids) map' commands answers map'') :
    Runs used map (c :: commands) (a :: answers) map''

/-- A command that spares an entry leaves its identifier. -/
theorem Step.kept (h : Step used map c a map') (hspares : c.Spares key)
    (hkey : map key = some (id, payload)) : ∃ payload', map' key = some (id, payload') := by
  cases h with
  | @replace key' new id' old hkey' =>
    by_cases heq : key = key'
    · subst heq
      obtain ⟨rfl, -⟩ := Prod.mk.inj (Option.some.inj (hkey'.symm.trans hkey))
      exact ⟨_, Function.update_self ..⟩
    · exact ⟨payload, (Function.update_of_ne heq ..).trans hkey⟩
  | @insert key' new id' hkey' hnew =>
    have hne : key ≠ key' := by
      rintro rfl
      exact nomatch hkey'.symm.trans hkey
    exact ⟨payload, (Function.update_of_ne hne ..).trans hkey⟩
  | delete => exact ⟨payload, (Function.update_of_ne (Ne.symm hspares) ..).trans hkey⟩
  | deleteSource => exact ⟨payload, (if_neg hspares).trans hkey⟩

/-- **An entry keeps its identifier** until it is taken out. -/
theorem Runs.kept (h : Runs used map commands answers map')
    (hspares : ∀ c ∈ commands, c.Spares key) (hkey : map key = some (id, payload)) :
    ∃ payload', map' key = some (id, payload') := by
  induction h generalizing payload with
  | nil => exact ⟨payload, hkey⟩
  | cons hstep hrest ih =>
    obtain ⟨hc, hrest⟩ := List.forall_mem_cons.mp hspares
    obtain ⟨payload₁, hkey₁⟩ := hstep.kept hc hkey
    exact ih hrest hkey₁

/-- What is answered when a payload is stored is the identifier that the entry has from then on. -/
theorem Runs.answered {new : Json}
    (h : Runs used map (before ++ .upsert key new :: after) answers map')
    (hspares : ∀ c ∈ after, c.Spares key) : ∃ id created payload,
      answers[before.length]? = some (.stored id created) ∧ map' key = some (id, payload) := by
  induction before generalizing used map answers with
  | nil =>
    rcases h with - | ⟨hstep, hrest⟩
    cases hstep with
    | replace =>
      obtain ⟨payload, hlast⟩ := hrest.kept hspares (Function.update_self ..)
      exact ⟨_, false, payload, rfl, hlast⟩
    | insert =>
      obtain ⟨payload, hlast⟩ := hrest.kept hspares (Function.update_self ..)
      exact ⟨_, true, payload, rfl, hlast⟩
  | cons c rest ih =>
    rcases h with - | ⟨-, hrest⟩
    exact ih hrest

end RecordMap

/-! ## The order of keys -/

namespace RecordKey

/-- What keys are compared by. -/
def rank (key : RecordKey) : String ×ₗ ℤ ×ₗ String :=
  toLex (key.source.text, toLex (key.version, key.localId))

theorem rank_injective : Function.Injective rank := by
  rintro ⟨localId, ⟨text, _, _⟩, version⟩ ⟨localId', ⟨text', _, _⟩, version'⟩ h
  obtain ⟨rfl, hrest⟩ := Prod.mk.inj (toLex.injective h)
  obtain ⟨rfl, rfl⟩ := Prod.mk.inj (toLex.injective hrest)
  rfl

theorem before_eq (a b : RecordKey) : a.before b = decide (a.rank < b.rank) := by
  have hsource : a.source = b.source ↔ a.source.text = b.source.text := by
    rw [SourceId.mk.injEq]
  rw [Bool.eq_iff_iff, decide_eq_true_iff, rank, rank, Prod.Lex.toLex_lt_toLex,
    Prod.Lex.toLex_lt_toLex, before]
  split_ifs with hs hv
  · simp [hs, hv]
  · simp [hs, hv]
  · simp [← hsource, hs]

end RecordKey

/-! ## What is stored and what is read -/

/-- A row is read as what it says. -/
structure RecordRow.Says (row : RecordRow) (r : Record) : Prop where
  id : row.id = .intact r.id
  localId : r.localId = row.key.localId
  sourceId : r.sourceId = row.key.source.text
  sourceVersion : r.sourceVersion = row.key.version
  payload : Json.parse? row.payload = some r.payload

namespace Tables

variable {t t' : Tables} {map : RecordMap} {key : RecordKey} {id : RecordId} {payload : String}
  {rows : List RecordRow}

/-- The map of what is stored. -/
def recordMap (t : Tables) : RecordMap := fun key ↦
  (t.recordOf? key).bind fun row ↦
    match row.id with
    | .intact id => some (id, row.payload)
    | .other _ => none

/-- An answer has what some rows say, one after the other, or else fails because of a payload. -/
structure Answers (rows : List RecordRow) (answer : Except Fault (List Record)) : Prop where
  read : (∀ row ∈ rows, Readable row) →
    ∃ records, answer = .ok records ∧ List.Forall₂ RecordRow.Says rows records
  refused : (¬∀ row ∈ rows, Readable row) → answer = .error .invalidPayload

/-- **Tables hold the entries of a map**, as one row each, and are read in two orders. -/
structure Refines (t : Tables) (map : RecordMap) : Prop where
  nodup : t.records.Nodup
  mem_iff : ∀ row, row ∈ t.records ↔ map.Has row
  ids_injective : ∀ {key key' id payload payload'}, map key = some (id, payload) →
    map key' = some (id, payload') → key = key'
  /-- A listing is of the whole map, or of the entries of one source. -/
  listed : ∀ source : Option SourceId, ∃ rows : List RecordRow,
    Answers rows (t.listRecords source) ∧
    rows.Pairwise (fun a b ↦ a.key.rank < b.key.rank) ∧
    ∀ row, row ∈ rows ↔ map.Has row ∧ ∀ s ∈ source, row.key.source = s
  /-- A page has the first of the entries whose identifiers come after a place. -/
  paged : ∀ (place : Option RecordId) (limit : ℕ), ∃ rows : List RecordRow,
    Answers (rows.take limit) (t.pageRecords place limit) ∧
    rows.Pairwise (fun a b ↦ a.number < b.number) ∧
    ∀ row, row ∈ rows ↔ map.Has row ∧ ∀ q ∈ place, q.toNat < row.number

theorem says_of_read {row : RecordRow} {r : Record} (hid : row.id = .intact id)
    (hread : row.read = .ok r) : row.Says r := by
  rw [RecordRow.read, hid, Cell.read_intact] at hread
  rcases hparse : Json.parse? row.payload with - | json
  · rw [hparse] at hread
    cases hread
  · rw [hparse] at hread
    obtain rfl := Except.ok.inj hread
    exact ⟨hid, rfl, rfl, rfl, hparse⟩

namespace Wellformed

variable (h : t.Wellformed)

include h

theorem recordMap_eq_some_iff :
    t.recordMap key = some (id, payload) ↔ ⟨.intact id, key, payload⟩ ∈ t.records := by
  rw [recordMap, Option.bind_eq_some_iff]
  constructor
  · rintro ⟨row, hrow, heq⟩
    obtain ⟨hmem, rfl⟩ := h.recordOf?_eq_some_iff.mp hrow
    obtain ⟨q, hq⟩ := h.record_intact row hmem
    rw [hq, Option.some.injEq, Prod.mk.injEq] at heq
    obtain ⟨rfl, rfl⟩ := heq
    rw [← hq]
    exact hmem
  · exact fun hmem ↦ ⟨_, h.recordOf?_of_mem hmem, rfl⟩

theorem has_iff {row : RecordRow} : t.recordMap.Has row ↔ row ∈ t.records := by
  constructor
  · rintro ⟨id, hid, hrow⟩
    rw [h.recordMap_eq_some_iff, ← hid] at hrow
    exact hrow
  · intro hrow
    obtain ⟨id, hid⟩ := h.record_intact row hrow
    refine ⟨id, hid, h.recordMap_eq_some_iff.mpr ?_⟩
    rw [← hid]
    exact hrow

theorem recordMap_isSome_iff :
    (t.recordMap key).isSome = true ↔ ∃ row ∈ t.records, row.key = key := by
  rw [Option.isSome_iff_exists]
  constructor
  · rintro ⟨⟨id, payload⟩, hkey⟩
    exact ⟨_, h.recordMap_eq_some_iff.mp hkey, rfl⟩
  · rintro ⟨row, hrow, rfl⟩
    obtain ⟨id, -, hkey⟩ := h.has_iff.mpr hrow
    exact ⟨_, hkey⟩

theorem answers (hrows : ∀ row ∈ rows, row ∈ t.records) :
    Answers rows (rows.mapM RecordRow.read) := by
  obtain ⟨f, htells⟩ := h.exists_reading
  have hf : ∀ row ∈ rows, Tells row (f row) := fun row hrow ↦ htells row (hrows row hrow)
  refine ⟨fun hreadable ↦ ⟨rows.map f, mapM_read_eq_map hf hreadable, ?_⟩,
    mapM_read_eq_error hf⟩
  rw [List.forall₂_map_right_iff, List.forall₂_same]
  intro row hrow
  obtain ⟨payload, hpayload⟩ := hreadable row hrow
  exact says_of_read (hf row hrow).id ((hf row hrow).read payload hpayload).1

/-- Rows that are sorted by their keys ascend. -/
theorem pairwise_sortBy_key (p : RecordRow → Bool) :
    (Sorted.sortBy (fun a b ↦ a.key.before b.key) (t.records.filter p)).Pairwise
      fun a b ↦ a.key.rank < b.key.rank := by
  have hbefore : (fun a b : RecordRow ↦ a.key.before b.key)
      = fun a b ↦ decide (a.key.rank < b.key.rank) := by
    funext a b
    exact RecordKey.before_eq a.key b.key
  rw [hbefore]
  have hkeys : ((t.records.filter p).map RecordRow.key).Nodup :=
    h.recordKey_nodup.sublist (List.filter_sublist.map _)
  have hranks := hkeys.map RecordKey.rank_injective
  rw [List.map_map] at hranks
  exact Sorted.pairwise_sortBy_lt (f := fun r : RecordRow ↦ r.key.rank) hranks

/-- **Well-formed tables are those of a map.** -/
theorem refines : t.Refines t.recordMap where
  nodup := h.recordKey_nodup.of_map
  mem_iff row := h.has_iff.symm
  ids_injective hkey hkey' := by
    rw [h.recordMap_eq_some_iff] at hkey hkey'
    exact congrArg RecordRow.key (h.record_ext hkey hkey' rfl)
  listed source := by
    let fits : RecordRow → Bool := fun r ↦ source.all fun s ↦ r.key.source = s
    have hlist : t.listRecords source
        = (Sorted.sortBy (fun a b ↦ a.key.before b.key) (t.records.filter fits)).mapM
            RecordRow.read := by
      rcases source with - | s
      · rfl
      · rfl
    have hfits : ∀ row, fits row = true ↔ ∀ s ∈ source, row.key.source = s := by
      rcases source with - | s <;> simp [fits]
    have hmem : ∀ row, row ∈ Sorted.sortBy (fun a b ↦ a.key.before b.key) (t.records.filter fits) ↔
        t.recordMap.Has row ∧ ∀ s ∈ source, row.key.source = s := fun row ↦ by
      rw [Sorted.mem_sortBy, List.mem_filter, h.has_iff, hfits]
    rw [hlist]
    exact ⟨_, h.answers fun row hrow ↦ h.has_iff.mp ((hmem row).mp hrow).1,
      h.pairwise_sortBy_key fits, hmem⟩
  paged place limit := by
    have hmem : ∀ row, row ∈ ascending (t.records.filter (isAfter place)) ↔
        t.recordMap.Has row ∧ ∀ q ∈ place, q.toNat < row.number := fun row ↦ by
      rw [mem_ascending, List.mem_filter, h.has_iff]
      refine and_congr_right fun hrow ↦ ?_
      obtain ⟨id, hid⟩ := h.record_intact row hrow
      rcases place with - | q
      · rw [isAfter, hid]
        simp [Cell.text, Identifier.text, text_ne_empty id]
      · rw [isAfter_some q ⟨id, hid⟩]
        simp
    refine ⟨_, h.answers fun row hrow ↦ h.has_iff.mp ((hmem row).mp (List.mem_of_mem_take hrow)).1,
      pairwise_ascending ?_ ?_, hmem⟩
    · exact fun row hrow ↦ h.record_intact row (List.mem_of_mem_filter hrow)
    · exact h.recordId_nodup.sublist (List.filter_sublist.map _)

end Wellformed

/-! ## What statements do to the map -/

theorem recordMap_storeRecord {candidate : RecordId} {json : Json}
    (hok : storeRecord candidate key json t = .ok (.intact id, t')) :
    t'.recordMap = Function.update t.recordMap key (some (id, json.text)) := by
  obtain ⟨hown, hothers⟩ := recordOf?_storeRecord hok
  funext k
  by_cases hk : k = key
  · rw [hk, Function.update_self, recordMap, hown]
    rfl
  · rw [Function.update_of_ne hk, recordMap, recordMap, hothers k hk]

/-- Deleting records by their keys takes out the entries of these keys. -/
theorem Wellformed.recordMap_deleteRecords (h : t.Wellformed) (p : RecordKey → Bool)
    (now : Datestamp) : (t.deleteRecords (fun r ↦ p r.key) now).2.recordMap
      = fun key ↦ if p key then none else t.recordMap key := by
  have hmem : ∀ row, row ∈ (t.deleteRecords (fun r ↦ p r.key) now).2.records ↔
      row ∈ t.records ∧ (!p row.key) = true := fun row ↦ List.mem_filter
  funext key
  ext ⟨id, payload⟩
  rw [(h.deleteRecords _ now).recordMap_eq_some_iff, hmem]
  rcases hp : p key with - | -
  · rw [if_neg Bool.false_ne_true, h.recordMap_eq_some_iff]
    exact and_iff_left rfl
  · rw [if_pos rfl]
    simp

theorem Wellformed.encard_source (h : t.Wellformed) (source : SourceId) :
    {key | key.source = source ∧ (t.recordMap key).isSome}.encard
      = t.records.countP fun r ↦ r.key.source = source := by
  refine encard_eq_countP RecordRow.key ?_ fun key ↦ ?_
  · exact h.recordKey_nodup.sublist (List.filter_sublist.map _)
  · rw [Set.mem_ofPred_eq, h.recordMap_isSome_iff]
    constructor
    · rintro ⟨hsource, row, hrow, rfl⟩
      exact ⟨row, hrow, decide_eq_true hsource, rfl⟩
    · rintro ⟨row, hrow, hsource, rfl⟩
      exact ⟨of_decide_eq_true hsource, row, hrow, rfl⟩

end Tables

/-! ## Runs -/

variable {s : World} {used : Set RecordId}

/-- A stored record has the identifier of its entry, or one that was not used before. -/
theorem RecordCommand.exists_go_upsert (key : RecordKey) (payload : Json) (ho : s.Orderly)
    (hids : s.ids.next < idLimit) (hused : ∀ r ∈ used, r.toNat < s.ids.next) :
    ∃ id created s', (upsert key payload).work.go s = (.ok (.stored id created), s') ∧
      s'.Orderly ∧ s'.ids.next = s.ids.next + 1 ∧ id.toNat < s'.ids.next ∧
      RecordMap.Step used s.tables.recordMap (.upsert key payload) (.stored id created)
        s'.tables.recordMap := by
  obtain ⟨id, s', henroll, hnext, ho', hstores, -⟩ := Ingester.exists_enroll key payload ho hids
  obtain ⟨t, -, hs', hst⟩ := Ingester.enroll_ok henroll
  have hmap : s'.tables.recordMap
      = Function.update s.tables.recordMap key (some (id, payload.text)) := by
    rw [hs']
    exact recordMap_storeRecord hst
  refine ⟨id, id = ⟨Uuid.ofNat s.ids.next⟩, s', ?_, ho', hnext, ho'.record_lt id hstores, ?_⟩
  · simp only [work, go_bind, henroll, go_ofExcept, Cell.read_intact, go_pure]
  · rw [hmap]
    rcases storeRecord_ok_iff.mp hst with ⟨⟨_, _, old⟩, hrow, rfl, -⟩ | ⟨hnone, -, hid, -⟩
    · obtain ⟨hmem, rfl⟩ := ho.form.recordOf?_eq_some_iff.mp hrow
      have hne : id ≠ ⟨Uuid.ofNat s.ids.next⟩ := by
        rintro rfl
        exact ho.fresh_record hids ⟨_, hmem, rfl⟩
      rw [decide_eq_false hne]
      exact .replace (ho.form.recordMap_eq_some_iff.mpr hmem)
    · obtain rfl := Cell.intact.inj hid
      rw [decide_eq_true rfl]
      refine .insert ?_ fun hold ↦ (hused _ hold).ne (Uuid.toNat_ofNat hids)
      rw [recordMap, hnone]
      rfl

/-- **A command does to the map what it should**, and identifiers in use stay below those that the
supply will hand out. -/
theorem RecordCommand.exists_go (c : RecordCommand) (ho : s.Orderly) (hids : s.ids.next < idLimit)
    (hused : ∀ r ∈ used, r.toNat < s.ids.next) : ∃ a s', c.work.go s = (.ok a, s') ∧ s'.Orderly ∧
      s'.ids.next ≤ s.ids.next + 1 ∧ (∀ r ∈ used ∪ a.ids, r.toNat < s'.ids.next) ∧
      RecordMap.Step used s.tables.recordMap c a s'.tables.recordMap := by
  cases c with
  | upsert key payload =>
    obtain ⟨id, created, s', hgo, ho', hnext, hid, hstep⟩ :=
      exists_go_upsert key payload ho hids hused
    refine ⟨_, s', hgo, ho', hnext.le, ?_, hstep⟩
    rintro r (hr | rfl)
    · exact (hused r hr).trans (hnext ▸ Nat.lt_succ_self _)
    · exact hid
  | delete key now =>
    have hfound : (s.tables.deleteRecord key now).1 = (s.tables.recordMap key).isSome := by
      rw [Ingester.deleteRecord_fst, Bool.eq_iff_iff, ho.form.recordMap_isSome_iff, recordOf?,
        List.find?_isSome]
      simp
    have hmap : (s.tables.deleteRecord key now).2.recordMap
        = Function.update s.tables.recordMap key none := by
      refine (ho.form.recordMap_deleteRecords (fun k ↦ k = key) now).trans ?_
      funext k
      simp only [Function.update_apply, decide_eq_true_eq]
    have hgo : (delete key now).work.go s = (.ok (.found (s.tables.recordMap key).isSome),
        { s with tables := (s.tables.deleteRecord key now).2 }) := by
      simp only [work, go_bind, go_update, go_pure, hfound]
    refine ⟨_, _, hgo, ho.deleteRecords _ now, Nat.le_succ _, ?_, ?_⟩
    · simpa [RecordAnswer.ids] using hused
    · rw [hmap]
      exact .delete
  | deleteSource source now =>
    have hgo : (deleteSource source now).work.go s
        = (.ok (.removed (s.tables.deleteSource source now).1),
          { s with tables := (s.tables.deleteSource source now).2 }) := by
      simp only [work, go_bind, go_update, go_pure]
    refine ⟨_, _, hgo, ho.deleteRecords _ now, Nat.le_succ _, ?_, ?_⟩
    · simpa [RecordAnswer.ids] using hused
    · rw [show (s.tables.deleteSource source now).2.recordMap = _ from
        ho.form.recordMap_deleteRecords (fun key ↦ key.source = source) now]
      simp only [decide_eq_true_eq]
      exact .deleteSource (ho.form.encard_source source)

/-- Commands do to the map what they should, one after the other. -/
theorem RecordCommand.exists_go_mapM (commands : List RecordCommand) (ho : s.Orderly)
    (hids : s.ids.next + commands.length ≤ idLimit) (hused : ∀ r ∈ used, r.toNat < s.ids.next) :
    ∃ answers s', (commands.mapM work).go s = (.ok answers, s') ∧ s'.Orderly ∧
      RecordMap.Runs used s.tables.recordMap commands answers s'.tables.recordMap := by
  induction commands generalizing s used with
  | nil => exact ⟨[], s, rfl, ho, .nil⟩
  | cons c rest ih =>
    rw [List.length_cons] at hids
    obtain ⟨a, s₁, hfirst, ho₁, hnext, hused₁, hstep⟩ := c.exists_go ho (by omega) hused
    obtain ⟨answers, s', hrest, ho', hruns⟩ := ih ho₁ (by omega) hused₁
    exact ⟨_, s', go_mapM_cons_ok.mpr ⟨a, s₁, answers, hfirst, hrest, rfl⟩, ho', .cons hstep hruns⟩

variable {s₀ : World} {calls : List Call}

/-- The identifiers of all records that were stored at the beginning, at the end or in between. -/
def usedBy (s₀ : World) (calls : List Call) : Set RecordId :=
  {r | ∃ n, (run s₀ (calls.take n)).tables.Stores r}

theorem lt_next_of_mem_usedBy (hempty : s₀.tables = .empty)
    (hcalls : ∀ c ∈ calls, c.op.IsEngine ∧ ∀ now ∈ c.op.reading?, now < Datestamp.limit)
    (hids : (run s₀ calls).ids.next ≤ idLimit) {r : RecordId} (hr : r ∈ usedBy s₀ calls) :
    r.toNat < (run s₀ calls).ids.next := by
  obtain ⟨n, hr⟩ := hr
  have hearly : KeepsSound s₀ (run s₀ (calls.take n)) :=
    run_keepsSound (fun c hc ↦ hcalls c (List.mem_of_mem_take hc)) s₀
  have hlate : KeepsSound (run s₀ (calls.take n)) (run (run s₀ (calls.take n)) (calls.drop n)) :=
    run_keepsSound (fun c hc ↦ hcalls c (List.mem_of_mem_drop hc)) _
  rw [← run_append, List.take_append_drop] at hlate
  have ho := hearly.1.2 (hlate.1.1.trans hids) (World.orderly_of_empty hempty)
  exact (ho.record_lt r hr).trans_le hlate.1.1

/-- **The records are a map with lasting identifiers.** Whatever the engine has done, any commands
that store and delete records succeed, and do to the map of the records what they should. An entry
that is new has an identifier that no record has ever had. From then on it keeps it until it is
taken out, as does every entry that was there before. Before and after, the rows are those of the
map, and so is what is listed and paged. -/
theorem records_refine_map (hempty : s₀.tables = .empty)
    (hcalls : ∀ c ∈ calls, c.op.IsEngine ∧ ∀ now ∈ c.op.reading?, now < Datestamp.limit)
    (commands : List RecordCommand)
    (hids : (run s₀ calls).ids.next + commands.length ≤ idLimit) :
    ∃ answers s, (commands.mapM RecordCommand.work).go (run s₀ calls) = (.ok answers, s) ∧
      (run s₀ calls).tables.Refines (run s₀ calls).tables.recordMap ∧
      RecordMap.Runs (usedBy s₀ calls) (run s₀ calls).tables.recordMap commands answers
        s.tables.recordMap ∧
      s.tables.Refines s.tables.recordMap ∧
      (∀ key id payload, (run s₀ calls).tables.recordMap key = some (id, payload) →
        (∀ c ∈ commands, c.Spares key) →
          ∃ payload', s.tables.recordMap key = some (id, payload')) ∧
      ∀ before key payload after, commands = before ++ .upsert key payload :: after →
        (∀ c ∈ after, c.Spares key) → ∃ id created payload',
          answers[before.length]? = some (.stored id created) ∧
            s.tables.recordMap key = some (id, payload') := by
  have hids₀ : (run s₀ calls).ids.next ≤ idLimit := (Nat.le_add_right ..).trans hids
  have ho := Reachable.orderly ⟨s₀, calls, hempty, rfl, hcalls⟩ hids₀
  obtain ⟨answers, s, hgo, ho', hruns⟩ := RecordCommand.exists_go_mapM commands ho hids
    fun r hr ↦ lt_next_of_mem_usedBy hempty hcalls hids₀ hr
  refine ⟨answers, s, hgo, ho.form.refines, hruns, ho'.form.refines, ?_, ?_⟩
  · exact fun key id payload hkey hspares ↦ hruns.kept hspares hkey
  · rintro before key payload after rfl hspares
    exact hruns.answered hspares

/-- One of two records is stored again, and so is one that is gone. -/
def Sample.returns : List RecordCommand :=
  [.upsert (keyOf "a") .null, .delete (keyOf "c") 7, .upsert (keyOf "c") .null]

open Sample in
/-- The first of them keeps its identifier. The other one is not there to be deleted, and comes back
under another identifier. -/
theorem bridge_stored_again : ∃ s,
    (returns.mapM RecordCommand.work).go (run blank bridge)
      = (.ok [.stored ⟨Uuid.ofNat 0⟩ false, .found false, .stored ⟨Uuid.ofNat 6⟩ true], s) ∧
    s.tables.Refines s.tables.recordMap ∧
    ∃ payload, s.tables.recordMap (keyOf "a") = some (⟨Uuid.ofNat 0⟩, payload) := by
  have hcalls : ∀ c ∈ bridge, c.op.IsEngine ∧ ∀ now ∈ c.op.reading?, now < Datestamp.limit := by
    simp [bridge, Operation.IsEngine, Operation.reading?, Datestamp.limit]
  have hids : (run blank bridge).ids.next + returns.length ≤ idLimit := by decide +kernel
  have hanswers :
      ((returns.mapM RecordCommand.work).go (run blank bridge)).1.toOption
        = some [.stored ⟨Uuid.ofNat 0⟩ false, .found false, .stored ⟨Uuid.ofNat 6⟩ true] := by
    decide +kernel
  have hspares : ∀ c ∈ returns.tail, c.Spares (keyOf "a") := by
    simp [returns, RecordCommand.Spares, keyOf]
  obtain ⟨answers, s, hgo, -, -, hrefines, -, hstored⟩ :=
    @records_refine_map blank bridge rfl hcalls returns hids
  obtain ⟨id, created, payload, hid, hkey⟩ := hstored [] (keyOf "a") .null _ rfl hspares
  rw [hgo] at hanswers
  obtain rfl := Option.some.inj hanswers
  obtain ⟨rfl, -⟩ := RecordAnswer.stored.inj (Option.some.inj hid)
  exact ⟨s, hgo, hrefines, payload, hkey⟩

end RecordLinkage
