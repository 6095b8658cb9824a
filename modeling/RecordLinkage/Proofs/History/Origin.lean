import Mathlib.Data.List.Induction
import RecordLinkage.Proofs.Ingest.Deed

/-!
# Where records come from

No record is there of itself: it was stored by a call that succeeded, and that call named a source.
Whoever makes a call spells the name in some way, and a history of calls is kept here together with
the spellings. A record was ingested under all the spellings with which it has been stored since it
is there.

## What work does to the rows

Two sets of keys bound what a piece of work does: rows that are new have keys of the one, and rows
that are gone have keys of the other. This lasts, so it is proved of storing, deleting and assigning
and holds of whatever is made of these.
-/

namespace RecordLinkage

open Work Tables

/-! ## Rows that come and go -/

/-- Rows are gained under some keys only, and lost under some keys only. -/
def Touches (gained lost : RecordKey → Prop) (s s' : World) : Prop :=
  s.tables.Wellformed → s'.tables.Wellformed ∧
    (∀ row ∈ s'.tables.records, row ∈ s.tables.records ∨ gained row.key) ∧
    ∀ row ∈ s.tables.records, row ∈ s'.tables.records ∨ lost row.key

variable {gained lost : RecordKey → Prop} {s s' s₀ : World} {now : Datestamp}

theorem lasting_touches (gained lost : RecordKey → Prop) : Lasting (Touches gained lost) where
  trans h h' hform := by
    obtain ⟨hform', hgained, hlost⟩ := h hform
    obtain ⟨hform'', hgained', hlost'⟩ := h' hform'
    refine ⟨hform'', fun row hrow ↦ ?_, fun row hrow ↦ ?_⟩
    · exact (hgained' row hrow).elim (hgained row) .inr
    · exact (hlost row hrow).elim (hlost' row) .inr
  idle htables _ hform := by
    rw [htables]
    exact ⟨hform, fun row hrow ↦ .inl hrow, fun row hrow ↦ .inl hrow⟩

/-- Work that writes no rows. -/
theorem touches_of_records (hform : s.tables.Wellformed → s'.tables.Wellformed)
    (hrecords : s.tables.Wellformed → s'.tables.records = s.tables.records) :
    Touches gained lost s s' := by
  intro h
  rw [hrecords h]
  exact ⟨hform h, fun row hrow ↦ .inl hrow, fun row hrow ↦ .inl hrow⟩

theorem assign_touches (r : RecordId) (config : String) (values : List String) :
    Achieves (Touches gained lost) (Clustering.assign now r config values) := by
  intro s a s' hgo
  have hkeeps := Clustering.assign_keepsRecords now r config values hgo
  exact touches_of_records (fun h ↦ (hkeeps h).1) fun h ↦ (hkeeps h).2.1

theorem statement_touches {α : Type} {st : Statement α}
    (h : ∀ {t a t'}, t.Wellformed → st t = .ok (a, t') →
      t'.Wellformed ∧ t'.records = t.records) :
    Achieves (Touches gained lost) (Work.statement st) := by
  intro s a s' hgo
  obtain ⟨t, hst, rfl⟩ := go_statement_ok.mp hgo
  exact touches_of_records (fun hform ↦ (h hform hst).1) fun hform ↦ (h hform hst).2

theorem enroll_touches {key : RecordKey} (hgained : gained key) (hlost : lost key)
    (payload : Json) : Achieves (Touches gained lost) (Ingester.enroll key payload) := by
  intro s result s' hgo hform
  obtain ⟨t, -, rfl, hst⟩ := Ingester.enroll_ok hgo
  have hform' := hform.storeRecord hst
  have hothers := (recordOf?_storeRecord hst).2
  refine ⟨hform', fun row hrow ↦ ?_, fun row hrow ↦ ?_⟩
  · by_cases hkey : row.key = key
    · exact .inr (hkey ▸ hgained)
    · have hrow' := (hothers _ hkey).symm.trans (hform'.recordOf?_of_mem hrow)
      exact .inl (hform.recordOf?_eq_some_iff.mp hrow').1
  · by_cases hkey : row.key = key
    · exact .inr (hkey ▸ hlost)
    · have hrow' := (hothers _ hkey).trans (hform.recordOf?_of_mem hrow)
      exact .inl (hform'.recordOf?_eq_some_iff.mp hrow').1

theorem deleteRecords_touches {α : Type} {f : Tables → α × Tables} (fits : RecordRow → Bool)
    (hlost : ∀ row, fits row = true → lost row.key)
    (hf : ∀ t, (f t).2 = (t.deleteRecords fits now).2) :
    Achieves (Touches gained lost) (update f) := by
  refine .update fun s hform ↦ ?_
  have hrecords : (f s.tables).2.records = s.tables.records.filter fun r ↦ !fits r := by
    rw [hf]
    rfl
  refine ⟨hf s.tables ▸ hform.deleteRecords fits now, fun row hrow ↦ ?_, fun row hrow ↦ ?_⟩
  · rw [hrecords] at hrow
    exact .inl (List.mem_of_mem_filter hrow)
  · rw [hrecords]
    rcases hfits : fits row with - | -
    · exact .inl (List.mem_filter.mpr ⟨hrow, by rw [hfits, Bool.not_false]⟩)
    · exact .inr (hlost row hfits)

/-- **What a submission does to the rows**: it may store under its key, or delete there. -/
theorem Ingester.ingest_touches (i : Ingester) {submission : Submission}
    (hgained : ∀ localId, i.localId submission = .ok localId → submission.delete = false →
      gained (i.key localId))
    (hlost : ∀ localId, i.localId submission = .ok localId → lost (i.key localId)) :
    Respects (Touches gained lost) (i.ingest now submission) := by
  have hL := lasting_touches gained lost
  intro s
  rcases i.go_ingest now submission s with ⟨f, s', hgo, htables, hgrows⟩ |
    ⟨localId, s₁, outcome, s', hlocal, htables, hgrows, hattempt, hgo⟩
  · rw [hgo]
    exact hL.idle htables hgrows
  · rw [hgo]
    refine hL.trans (hL.idle htables hgrows) ?_
    obtain ⟨-, hact⟩ := attempt_ok hattempt
    rw [act] at hact
    split_ifs at hact with hdelete
    · refine Achieves.bind hL ?_ (fun _ ↦ (Respects.pure hL _).achieves) hact
      refine deleteRecords_touches (fun r ↦ r.key = i.key localId) ?_ fun t ↦ rfl
      exact fun row hkey ↦ of_decide_eq_true hkey ▸ hlost localId hlocal
    · split at hact
      · next payload hpayload =>
        have hkey := hgained localId hlocal (by simpa using hdelete)
        exact achieves_store hL (fun k _ r values ↦ assign_touches r _ values)
          (enroll_touches hkey (hlost localId hlocal) payload) hact
      · cases (Prod.mk.inj hact).1

namespace Operation

/-- An operation stores a record under a key, if it succeeds. -/
def Stores (key : RecordKey) : Operation → Prop
  | storeRecord k _ => k = key
  | ingest i _ submission => submission.delete = false ∧
    ∃ localId, i.localId submission = .ok localId ∧ i.key localId = key
  | _ => False

/-- The source that an operation names. -/
def source? : Operation → Option SourceId
  | storeRecord key _ | deleteRecord key _ => some key.source
  | deleteSource source _ => some source
  | ingest i _ _ => some i.source
  | _ => none

theorem Stores.source?_eq {key : RecordKey} {op : Operation} (h : op.Stores key) :
    op.source? = some key.source := by
  cases op with
  | storeRecord k payload => exact congrArg (some ·.source) h
  | ingest i now submission =>
    obtain ⟨-, localId, -, rfl⟩ := h
    rfl
  | _ => exact h.elim

/-- **New rows have keys that the operation stores.** -/
theorem respects_touches {op : Operation} (hop : op.IsEngine) (access : Access) :
    Respects (Touches (op.Stores ·) fun _ ↦ True) (op.work access) := by
  have hL := lasting_touches (op.Stores ·) fun _ ↦ True
  cases op with
  | insertMatchKey k =>
    refine Achieves.transaction hL (statement_touches fun {t a t'} hform hst ↦ ?_)
      (grows_statement _) access
    have hform' := hform.insertMatchKey hst
    obtain ⟨-, rfl⟩ := insertMatchKey_ok_iff.mp hst
    exact ⟨hform', rfl⟩
  | updateMatchKey k =>
    refine respects_transaction_quietly hL (statement_touches fun {t a t'} hform hst ↦ ?_)
      (grows_statement _) access
    obtain rfl : (t.updateMatchKey k).2 = t' := (Prod.mk.inj (Except.ok.inj hst)).2
    exact ⟨hform.updateMatchKey k, rfl⟩
  | deleteMatchKey id =>
    refine respects_transaction_quietly hL (statement_touches fun {t a t'} hform hst ↦ ?_)
      (grows_statement _) access
    obtain rfl : (t.deleteMatchKey id).2 = t' := (Prod.mk.inj (Except.ok.inj hst)).2
    exact ⟨hform.deleteMatchKey id, rfl⟩
  | clear config =>
    have hclear : Respects (Touches ((clear config).Stores ·) fun _ ↦ True)
        (change (·.clear config)) :=
      .change fun s ↦ touches_of_records (fun hform ↦ hform.clear config) fun _ ↦ rfl
    exact hclear.achieves.transaction hL (grows_change _) access
  | storeRecord key payload =>
    exact respects_transaction_quietly hL (enroll_touches rfl trivial payload)
      (Ingester.enroll_grows key payload) access
  | deleteRecord key now =>
    exact respects_transaction_quietly hL (deleteRecords_touches _ (fun _ _ ↦ trivial) fun t ↦ rfl)
      (grows_statement _) access
  | deleteSource source now =>
    exact respects_transaction_quietly hL (deleteRecords_touches _ (fun _ _ ↦ trivial) fun t ↦ rfl)
      (grows_statement _) access
  | assign now r config values =>
    exact respects_transaction_quietly hL (assign_touches r config _)
      (Clustering.assign_grows now r config _) access
  | rebuild handle config limit now =>
    exact respects_quietly hL
      (Clustering.respects_rebuild hL (fun r values ↦ assign_touches r config values) access handle
        limit)
  | ingest i now submission =>
    refine respects_quietly hL (Ingester.ingest_touches _ (fun localId hlocal hdelete ↦ ?_)
      fun _ _ ↦ trivial)
    exact ⟨hdelete, localId, hlocal, rfl⟩
  | start | advance | merge | insertValue | setMember => exact hop.elim

end Operation

/-! ## Calls that succeed -/

namespace Call

/-- A call succeeds in a world. -/
def Succeeds (c : Call) (s : World) : Prop := ((c.op.work c.access).go s).1 = .ok ()

instance (c : Call) (s : World) : Decidable (c.Succeeds s) := inferInstanceAs (Decidable (_ = _))

/-- A call that stores records changes them only if it succeeds. -/
theorem succeeds_of_stores {c : Call} {key : RecordKey} (hstores : c.op.Stores key)
    (hchanged : (c.perform s).tables ≠ s.tables) : c.Succeeds s := by
  obtain ⟨access, op⟩ := c
  cases op with
  | storeRecord k payload =>
    rcases hgo : ((Operation.storeRecord k payload).work access).go s with ⟨f | ⟨⟩, s'⟩
    · have hgrows : Respects Grows (Operation.quietly (Ingester.enroll k payload)) :=
        Operation.respects_quietly Lasting.grows (Ingester.enroll_grows k payload)
      have htables := (transaction_error hgrows hgo).1
      rw [perform, hgo] at hchanged
      exact absurd htables hchanged
    · exact congrArg Prod.fst hgo
  | ingest i now submission =>
    rcases { i with access }.go_ingest now submission s with ⟨f, s', hgo, htables, -⟩ |
      ⟨localId, s₁, outcome, s', -, -, -, -, hgo⟩
    · refine absurd ?_ hchanged
      rw [perform, Operation.work, Operation.snd_go_quietly, hgo]
      exact htables
    · rw [Succeeds, Operation.work, Operation.quietly, go_bind, hgo]
      rfl
  | _ => exact hstores.elim

/-- **A row that is new was stored** by a call that succeeded. -/
theorem stores_of_new {c : Call} {row : RecordRow} (hform : s.tables.Wellformed)
    (hop : c.op.IsEngine) (hrow : row ∈ (c.perform s).tables.records)
    (hnew : row ∉ s.tables.records) : c.Succeeds s ∧ c.op.Stores row.key := by
  obtain ⟨-, hgained, -⟩ := Operation.respects_touches hop c.access s hform
  have hstores := (hgained row hrow).resolve_left hnew
  refine ⟨succeeds_of_stores hstores fun htables ↦ ?_, hstores⟩
  rw [htables] at hrow
  exact hnew hrow

end Call

/-! ## Spellings -/

/-- A call, and how whoever makes it spells the source that it names. -/
structure SpelledCall extends Call where
  spelling : String
  parse_spelling : ∀ source ∈ op.source?, SourceId.parse spelling = .ok source

/-- Spelled calls one after the other. -/
def runSpelled (s : World) (calls : List SpelledCall) : World := run s (calls.map (·.toCall))

theorem runSpelled_concat (s : World) (calls : List SpelledCall) (c : SpelledCall) :
    runSpelled s (calls ++ [c]) = c.perform (runSpelled s calls) := by
  rw [runSpelled, List.map_append, run, List.foldl_append]
  rfl

/-- **A record was ingested under a spelling**: a call that spells its source like that has stored
it and has succeeded, and the record has not been gone since. -/
inductive IngestedAs (s₀ : World) : List SpelledCall → String → RecordRow → Prop
  | stored {calls : List SpelledCall} {c : SpelledCall} {row : RecordRow}
      (hok : c.Succeeds (runSpelled s₀ calls)) (hstores : c.op.Stores row.key)
      (hrow : row ∈ (runSpelled s₀ (calls ++ [c])).tables.records) :
      IngestedAs s₀ (calls ++ [c]) c.spelling row
  | kept {calls : List SpelledCall} {c : SpelledCall} {spelling : String} {row row' : RecordRow}
      (h : IngestedAs s₀ calls spelling row) (hid : row'.id = row.id) (hkey : row'.key = row.key)
      (hrow : row' ∈ (runSpelled s₀ (calls ++ [c])).tables.records) :
      IngestedAs s₀ (calls ++ [c]) spelling row'

/-- A spelling under which a record was ingested is one of its source. -/
theorem IngestedAs.parse_eq {calls : List SpelledCall} {spelling : String} {row : RecordRow}
    (h : IngestedAs s₀ calls spelling row) : SourceId.parse spelling = .ok row.key.source := by
  induction h with
  | stored hok hstores hrow => exact SpelledCall.parse_spelling _ _ hstores.source?_eq
  | kept h hid hkey hrow ih => rw [ih, hkey]

theorem wellformed_runSpelled {calls : List SpelledCall} (hempty : s₀.tables = Tables.empty)
    (hcalls : ∀ c ∈ calls, c.op.IsEngine) : (runSpelled s₀ calls).tables.Wellformed := by
  induction calls using List.reverseRecOn with
  | nil =>
    rw [runSpelled, List.map_nil, run_nil_calls, hempty]
    exact wellformed_empty
  | append_singleton calls c ih =>
    have hform := ih fun c hc ↦ hcalls c (List.mem_append_left _ hc)
    have hop := hcalls c (List.mem_append_right _ (List.mem_singleton_self c))
    rw [runSpelled_concat]
    exact (Operation.respects_touches hop c.access _ hform).1

/-- **Every record was ingested** under some spelling of its source. -/
theorem exists_ingestedAs {calls : List SpelledCall} {row : RecordRow}
    (hempty : s₀.tables = Tables.empty) (hcalls : ∀ c ∈ calls, c.op.IsEngine)
    (hrow : row ∈ (runSpelled s₀ calls).tables.records) :
    ∃ spelling, IngestedAs s₀ calls spelling row := by
  induction calls using List.reverseRecOn with
  | nil =>
    rw [runSpelled, List.map_nil, run_nil_calls, hempty] at hrow
    exact absurd hrow List.not_mem_nil
  | append_singleton calls c ih =>
    have hcalls' : ∀ c ∈ calls, c.op.IsEngine := fun c hc ↦ hcalls c (List.mem_append_left _ hc)
    by_cases hold : row ∈ (runSpelled s₀ calls).tables.records
    · obtain ⟨spelling, h⟩ := ih hcalls' hold
      exact ⟨spelling, h.kept rfl rfl hrow⟩
    · have hform := wellformed_runSpelled hempty hcalls'
      have hop := hcalls c (List.mem_append_right _ (List.mem_singleton_self c))
      have hnew := runSpelled_concat s₀ calls c ▸ hrow
      obtain ⟨hok, hstores⟩ := Call.stores_of_new hform hop hnew hold
      exact ⟨c.spelling, .stored hok hstores hrow⟩

end RecordLinkage
