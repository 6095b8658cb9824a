import RecordLinkage.Proofs.Ingest.Atomic
import RecordLinkage.Proofs.Ingest.Repetition
import RecordLinkage.Proofs.Ingest.SetupAgain

/-!
# Batches that are ingested again

A batch that is ingested twice in a row finds its work done. Whatever it holds, the second time
changes no owner of a value and merges no cluster. If it removes nothing, the second time stores
the same payloads into the same records, counts as updated what was stored the first time, and
leaves every record in its cluster. Only a record whose last set of values is empty moves, since
such a record starts a cluster of its own whenever it is assigned.

In a wide window submissions may overtake one another, and not the same ones each time. Where the
batch names a record once only, this makes no difference. Where it names a record with different
payloads, the last one may be another one the second time; but even then the record goes no further
than to the cluster that owns the values of that payload already.

The batch may name a record many times, and clusters may be joined late in it. So one record being
assigned twice is not the point: by the end of the first time all sets of the batch are owned
together, and the second time keeps them so from its first assignment to its last.
-/

namespace RecordLinkage

open Clustering Work Tables

variable {i : Ingester} {s s' w : World} {now now' : Datestamp} {config : String} {a : List Deed}
  {r : RecordId} {row : RecordRow} {H : List (RecordId × List String)} {values : List String}
  {v : String} {submissions : List Submission}

/-! ## Where records are -/

namespace Clustering.Tracks

variable {s₀ : World} (h : Tracks config s₀ H s)

include h

/-- A record that was assigned values is in the cluster that owns them. -/
theorem holds_iff_owns (hform : s.tables.Wellformed) (hlast : H.lookup r = some values)
    (hv : v ∈ values) (hr : s.tables.Stores r) (x : ClusterId) :
    s.tables.Holds config x r ↔ s.tables.Owns config x v := by
  constructor
  · exact fun hx ↦ h.latest hx hlast v hv
  · intro hx
    obtain ⟨y, hy⟩ := h.present hr (Or.inl (by rw [hlast]; rfl))
    rwa [hform.owns_unique hx (h.latest hy hlast v hv)]

/-- A record that was not assigned stays in its cluster, if no value has changed its owner. -/
theorem holds_iff_of_lookup_eq_none (hform₀ : s₀.tables.Wellformed)
    (howners : KeepsOwners s₀ s) (hlast : H.lookup r = none) (hr : s.tables.Stores r)
    (x : ClusterId) : s.tables.Holds config x r ↔ s₀.tables.Holds config x r := by
  have hstays : ∀ {y}, s.tables.Holds config y r → s₀.tables.Holds config y r := by
    intro y hy
    obtain ⟨x₀, hx₀, ⟨u, hu₀, hu⟩ | ⟨-, rfl⟩⟩ := h.kept hy hlast
    · rw [Owns, howners] at hu
      rwa [hform₀.owns_unique hu hu₀]
    · exact hx₀
  refine ⟨hstays, fun hx ↦ ?_⟩
  obtain ⟨y, hy⟩ := h.present hr (Or.inr ⟨x, hx⟩)
  rwa [hform₀.holds_unique hx (hstays hy)]

end Clustering.Tracks

/-- **What deeds that remove nothing leave alone when they are done again.** -/
structure Ingester.Repeats (i : Ingester) (deeds : List Deed) (t t' : Tables) : Prop where
  records : t'.records = t.records
  /-- A record stays where it is, unless its last set of values is empty. -/
  kept : ∀ {config row r}, row ∈ t.records → row.id = .intact r →
    i.lastSet? config row.key deeds ≠ some [] →
    t'.members.filter (fun m ↦ m.record = r && m.config = config)
      = t.members.filter fun m ↦ m.record = r && m.config = config
  /-- Then it is alone in a new cluster. -/
  moved : ∀ {config row r}, row ∈ t.records → row.id = .intact r →
    i.lastSet? config row.key deeds = some [] → Settles config r [] t t'

/-- **What deeds that remove nothing change when they are done again in another order.** -/
structure Ingester.Rewrites (i : Ingester) (deeds deeds' : List Deed) (t t' : Tables) : Prop where
  /-- Each record has the payload that was stored last. -/
  records : t'.records = t.records.map (settled deeds')
  /-- A record stays where it is, if its last set of values is the same and not empty. -/
  kept : ∀ {config row r}, row ∈ t.records → row.id = .intact r →
    i.lastSet? config row.key deeds' = i.lastSet? config row.key deeds →
    i.lastSet? config row.key deeds ≠ some [] →
    t'.members.filter (fun m ↦ m.record = r && m.config = config)
      = t.members.filter fun m ↦ m.record = r && m.config = config
  /-- In any case it is in the cluster that owns its last values, and did so before. -/
  joined : ∀ {config row r values v}, row ∈ t.records → row.id = .intact r →
    i.lastSet? config row.key deeds' = some values → v ∈ values →
    ∀ x, t'.Holds config x r ↔ t.Owns config x v
  /-- Without values it is alone in a new cluster. -/
  moved : ∀ {config row r}, row ∈ t.records → row.id = .intact r →
    i.lastSet? config row.key deeds' = some [] → Settles config r [] t t'

/-- If the deeds for each key come in the same order, they change nothing. -/
theorem Ingester.Rewrites.repeats {deeds deeds' : List Deed} {t t' : Tables}
    (h : i.Rewrites deeds deeds' t t') (hrows : ∀ row ∈ t.records, settled deeds row = row)
    (hsame : ∀ key : RecordKey, deeds.filter (·.key = key) = deeds'.filter (·.key = key)) :
    i.Repeats deeds t t' := by
  have hlast : ∀ config key, i.lastSet? config key deeds' = i.lastSet? config key deeds := by
    intro config key
    rw [lastSet?_eq_filter, ← hsame, ← lastSet?_eq_filter]
  have hsettled : ∀ row ∈ t.records, settled deeds' row = row := by
    intro row hrow
    rw [settled_eq_filter, ← hsame, ← settled_eq_filter, hrows row hrow]
  refine ⟨?_, fun hrow hid ↦ h.kept hrow hid (hlast _ _),
    fun hrow hid heq ↦ h.moved hrow hid ((hlast _ _).trans heq)⟩
  rw [h.records, List.map_congr_left hsettled, List.map_id']

/-! ## Submissions -/

/-- **What comes of submissions that are carried out again**, perhaps in another order, with the
numbers that they add up to each time. -/
structure Ingester.Redone (i : Ingester) (order order' : List Submission) (t : Tables)
    (s s' : World) (first second : Tally) : Prop where
  owners : KeepsOwners s s'
  merges : MergesNothing s s'
  /-- If nothing is deleted, what was stored is updated, and the rest is ignored again. -/
  repeated : (∀ a ∈ order, a.delete = false) →
    second.2.1 = first.2.1 ∧ second.2.2.1 = 0 ∧ second.2.2.2.1 = first.2.2.1 + first.2.2.2.1 ∧
      i.Rewrites (i.deeds t order) (i.deeds t order') s.tables s'.tables ∧
      (i.SameTurns order order' → i.Repeats (i.deeds t order) s.tables s'.tables)

/-- Submissions that delete nothing remove nothing. -/
theorem Ingester.remove_notMem_deeds {t : Tables} (h : ∀ a ∈ submissions, a.delete = false)
    (key : RecordKey) : .remove key ∉ i.deeds t submissions := by
  intro hd
  obtain ⟨a, ha, hdeed⟩ := List.mem_filterMap.mp hd
  obtain ⟨-, localId, -, ⟨hdelete, -⟩ | ⟨-, _, -, -, heq⟩⟩ := deed?_cases hdeed
  · exact absurd (hdelete.symm.trans (h a ha)) (by decide)
  · exact nomatch heq

/-- Where owners are the same in the end, nothing was merged. -/
theorem mergesNothing_of_owners (hs : s.tables.Sound) (hleads : ∀ config, Leads config s s')
    (howners : KeepsOwners s s') : MergesNothing s s' := by
  refine fun config ↦ ⟨hleads config, fun hbefore hnow hgo hafter ↦ ?_⟩
  refine Leads.merged_eq_nil hs (fun x v hx ↦ ?_) hbefore hnow hgo hafter
  rwa [Owns, howners] at hx

/-- What the second time around has done to a record that was there before. -/
theorem Carried.exists_course_of_map (h : Carried i a s s')
    (hrecords : s'.tables.records = s.tables.records.map (settled a)) (config : String)
    (hrow : row ∈ s.tables.records) (hid : row.id = .intact r) : s'.tables.Stores r ∧
      ∃ H, Course config s H s' ∧ H.lookup r = i.lastSet? config row.key a := by
  obtain ⟨hid', hkey⟩ := settled_id_key a row
  have hrow' : settled a row ∈ s'.tables.records := hrecords ▸ List.mem_map_of_mem hrow
  obtain ⟨H, hcourse, hH⟩ := h.exists_course config hrow' (hid'.trans hid)
  exact ⟨⟨_, hrow', hid'.trans hid⟩, H, hcourse, hkey ▸ hH⟩

/-- The second time around every record is next to its last values, or has moved away to be alone. -/
theorem Carried.rewrites {a' : List Deed} (hw : w.tables.Sound) (ho : w.Orderly)
    (hs : s.tables.Sound) (h : Carried i a w s) (h' : Carried i a' s s')
    (howners : KeepsOwners s s')
    (hrecords : s'.tables.records = s.tables.records.map (settled a')) :
    i.Rewrites a a' s.tables s'.tables where
  records := hrecords
  kept {config row r} hrow hid hsame hne := by
    obtain ⟨H, hcourse, hH⟩ := h.exists_course config hrow hid
    obtain ⟨hr', H', hcourse', hH'⟩ := h'.exists_course_of_map hrecords config hrow hid
    have htracks := hcourse.tracks hw.form (ho.numbered hw config)
    have htracks' := hcourse'.tracks hs.form (h.orderly.numbered hs config)
    have hr : s.tables.Stores r := ⟨row, hrow, hid⟩
    rw [hsame] at hH'
    refine hs.form.filter_members_congr h'.orderly.form fun x ↦ ?_
    rcases hset : i.lastSet? config row.key a with - | - | ⟨v, rest⟩
    · exact htracks'.holds_iff_of_lookup_eq_none hs.form howners (hH'.trans hset) hr' x
    · exact absurd hset hne
    · -- Both times the record is next to the first of its values, whose owner is the same.
      rw [htracks.holds_iff_owns hs.form (hH.trans hset) List.mem_cons_self hr,
        htracks'.holds_iff_owns h'.orderly.form (hH'.trans hset) List.mem_cons_self hr', Owns,
        howners, Owns]
  joined {config row r values v} hrow hid hset hv x := by
    obtain ⟨hr', H', hcourse', hH'⟩ := h'.exists_course_of_map hrecords config hrow hid
    have htracks' := hcourse'.tracks hs.form (h.orderly.numbered hs config)
    rw [htracks'.holds_iff_owns h'.orderly.form (hH'.trans hset) hv hr', Owns, howners, Owns]
  moved {config row r} hrow hid hset := by
    obtain ⟨hr', H', hcourse', hH'⟩ := h'.exists_course_of_map hrecords config hrow hid
    exact Ingester.settles_of_course h.orderly hs h'.orderly.form hcourse' hr' (hH'.trans hset)

section Again

variable {order order' : List Submission} (h : Carried i (i.deeds w.tables order) w s)
  (ho : w.Orderly) (hperm : order.Perm order')
  (hids : (i.carry now order' s).2.ids.next < idLimit)

include h ho hperm hids

/-- If nothing is deleted, as many submissions are stored and ignored as the first time. -/
theorem Carried.tally_again (hkeep : ∀ a ∈ order, a.delete = false) {now' : Datestamp}
    (hids' : (i.carry now' order w).2.ids.next < idLimit) :
    (i.tally now order' s).2.1 = (i.tally now' order w).2.1 ∧
      (i.tally now order' s).2.2.1 + (i.tally now order' s).2.2.2.1
        = (i.tally now' order w).2.2.1 + (i.tally now' order w).2.2.2.1 := by
  have hsame : (i.deeds w.tables order).Perm (i.deeds w.tables order') := hperm.filterMap _
  have hdeeds := Ingester.deeds_congr (i := i) h.matchKeys order'
  have hno := Ingester.remove_notMem_deeds (i := i) (t := w.tables) hkeep
  obtain ⟨hignored, hstored⟩ := Ingester.tally_of_stores ho hids' hno
  obtain ⟨hignored', hstored'⟩ := Ingester.tally_of_stores h.orderly hids fun key hd ↦
    hno key (hsame.mem_iff.mpr (hdeeds ▸ hd))
  have hlength := hperm.length_eq
  have hlength' := hsame.length_eq
  rw [hdeeds] at hignored' hstored'
  constructor <;> omega

variable (hw : w.tables.Sound)

include hw

/-- Every set that is assigned the second time was assigned the first time. -/
theorem Carried.keepsOwners_again : KeepsOwners s (i.carry now order' s).2 := by
  have hsame : (i.deeds w.tables order).Perm (i.deeds w.tables order') := hperm.filterMap _
  have hdeeds := Ingester.deeds_congr (i := i) h.matchKeys order'
  refine Ingester.owners_of_carry h.orderly hids fun key payload hd config values hvalues ↦ ?_
  exact h.together ho.form (ho.numbered hw) (hsame.mem_iff.mpr (hdeeds ▸ hd)) hvalues

/-- If nothing is deleted, every key has a record the second time. -/
theorem Carried.rewrites_again (hs : s.tables.Sound) (hkeep : ∀ a ∈ order, a.delete = false) :
    i.Rewrites (i.deeds w.tables order) (i.deeds w.tables order') s.tables
        (i.carry now order' s).2.tables ∧
      (i.tally now order' s).2.2.1 = 0 := by
  have hsame : (i.deeds w.tables order).Perm (i.deeds w.tables order') := hperm.filterMap _
  have hdeeds := Ingester.deeds_congr (i := i) h.matchKeys order'
  have hno := Ingester.remove_notMem_deeds (i := i) (t := w.tables) hkeep
  have hstocked : Ingester.Stocked (i.deeds s.tables order') s.tables := by
    rw [hdeeds]
    rintro (⟨key, payload⟩ | key) hd
    · exact ⟨key, payload, rfl, h.present hno key payload (hsame.mem_iff.mpr hd)⟩
    · exact absurd (hsame.mem_iff.mpr hd) (hno key)
  obtain ⟨hrecords, hinserted⟩ := Ingester.carry_of_stocked h.orderly hids hstocked
  have hsecond := i.carry_carried now order' h.orderly (h.orderly.numbered hs) hids
  rw [hdeeds] at hrecords hsecond
  have howners := h.keepsOwners_again ho hperm hids hw
  exact ⟨h.rewrites hw ho hs hsecond howners hrecords, hinserted⟩

end Again

/-- **Submissions that are carried out again find their work done**, in whatever order, when nothing
has happened to the tables in between. -/
theorem Ingester.carry_again (i : Ingester) (hw : w.tables.Sound) (ho : w.Orderly)
    (hnow : now < Datestamp.limit) (hnow' : now' < Datestamp.limit)
    {order order' : List Submission} (hperm : order.Perm order') {s₁ : World}
    (hids : (i.carry now' order' s₁).2.ids.next < idLimit)
    (hidle : Idles (i.carry now order w).2 s₁) :
    i.Redone order order' w.tables (i.carry now order w).2 (i.carry now' order' s₁).2
      (i.tally now order w) (i.tally now' order' s₁) := by
  have hids₁ : s₁.ids.next < idLimit := (i.carry_grows now' order' s₁).trans_lt hids
  have hids₀ := Nat.lt_of_le_of_lt hidle.2 hids₁
  obtain ⟨htables, hgrows⟩ := hidle
  have hfirst := i.carry_carried now order ho (ho.numbered hw) hids₀
  have hready : Carried i (i.deeds w.tables order) w s₁ :=
    hfirst.idle (.idle hfirst.orderly htables hgrows hids₁.le)
  have hsound :=
    (i.carry_respects now lasting_keepsSound (i.ingest_keepsSound hnow) order w).2 hw
  have howners := lasting_keepsOwners.trans (lasting_keepsOwners.idle htables hgrows)
    (hready.keepsOwners_again ho hperm hids hw)
  have hleads : ∀ config, Leads config (i.carry now order w).2 (i.carry now' order' s₁).2 := by
    intro config
    have hcarry := i.carry_respects now' (lasting_leads config) (i.ingest_leads hnow' config)
      order' s₁
    exact (lasting_leads config).trans ((lasting_leads config).idle htables hgrows) hcarry
  refine ⟨howners, mergesNothing_of_owners hsound hleads howners, fun hkeep ↦ ?_⟩
  obtain ⟨hignored, hstored⟩ := hready.tally_again ho hperm hids hkeep hids₀
  obtain ⟨hrewrites, hinserted⟩ :=
    hready.rewrites_again ho hperm hids hw (htables ▸ hsound) hkeep
  have hrows := hready.rows
  rw [htables] at hrewrites hrows
  rw [hinserted, Nat.zero_add] at hstored
  refine ⟨hignored, hinserted, hstored, hrewrites, fun hturns ↦ ?_⟩
  exact hrewrites.repeats hrows fun key ↦ hturns.deeds_filter w.tables key

/-! ## Batches -/

/-- What is no submission is counted as ignored, besides the submissions. -/
theorem Summary.eq_of_tally {summary : Summary} {t : Tally} {n : ℕ}
    (h : summary.tally = t + n • Outcome.ignored.tally) : summary.ignored = t.2.1 + n ∧
      summary.inserted = t.2.2.1 ∧ summary.updated = t.2.2.2.1 := by
  obtain ⟨processed, ignored, inserted, updated, deleted⟩ := t
  have hparts : summary.ignored = ignored + n ∧ summary.inserted = inserted ∧
      summary.updated = updated ∧ summary.deleted = deleted := by
    simpa [tally, Outcome.tally] using (Prod.mk.inj h).2
  exact ⟨hparts.1, hparts.2.1, hparts.2.2.1⟩

/-- What is no submission is ignored both times. -/
theorem Summary.updated_again {summary summary' : Summary} {t t' : Tally} {n : ℕ}
    (h : summary.tally = t + n • Outcome.ignored.tally)
    (h' : summary'.tally = t' + n • Outcome.ignored.tally) (hignored : t'.2.1 = t.2.1)
    (hinserted : t'.2.2.1 = 0) (hupdated : t'.2.2.2.1 = t.2.2.1 + t.2.2.2.1) :
    summary'.ignored = summary.ignored ∧ summary'.inserted = 0 ∧
      summary'.updated = summary.inserted + summary.updated := by
  obtain ⟨hcount, hcount', hcount''⟩ := eq_of_tally h
  obtain ⟨hagain, hagain', hagain''⟩ := eq_of_tally h'
  exact ⟨by omega, by omega, by omega⟩

theorem ingestBatch_grows {access : Access} {tenant : TenantId} {request : IngestRequest}
    {settings : IngestSettings} {schedule : Schedule} {input : List Char}
    (hinput : (Json.readStream input).isComplete = true) (now : Datestamp) (w : World) :
    Grows w ((ingestBatch access tenant request settings schedule now input).go w).2 := by
  have hidle := Ingester.respects_create lasting_idles access tenant request settings w
  rcases hcreate : (Ingester.create access tenant request settings).go w with ⟨f | i, w₀⟩ <;>
    rw [hcreate] at hidle
  · obtain ⟨report, hgo, -⟩ := go_ingestBatch_error hcreate schedule now input
    rw [hgo]
    exact hidle.2
  · obtain ⟨report, summary, hgo, -⟩ := go_ingestBatch_ok hcreate hinput schedule now
    rw [hgo]
    exact hidle.2.trans (i.carry_grows now _ w₀)

/-- If an ingester cannot be set up, it cannot be set up the second time either. -/
theorem ingestBatch_refused (hcache : w.cache.Made) {access : Access} (tenant : TenantId)
    {request : IngestRequest} {settings : IngestSettings} {f : Fault}
    (hdesign : Ingester.design access request settings w.tables = .error f)
    (schedule schedule' : Schedule) (now now' : Datestamp) (input : List Char) :
    ∃ c c' report report',
      (Ingester.create access tenant request settings).go w
        = (.error f, { w with cache := c }) ∧
      (ingestBatch access tenant request settings schedule now input).go w
        = (.ok report, { w with cache := c }) ∧
      (ingestBatch access tenant request settings schedule' now' input).go { w with cache := c }
        = (.ok report', { w with cache := c' }) ∧
      report.result = .error f ∧ report'.result = .error f := by
  obtain ⟨c, hc, hcreate⟩ := Ingester.go_create hcache access tenant request settings
  obtain ⟨c', -, hcreate'⟩ :=
    Ingester.go_create (s := { w with cache := c }) hc access tenant request settings
  rw [hdesign] at hcreate hcreate'
  obtain ⟨report, hgo, hreport⟩ := go_ingestBatch_error hcreate schedule now input
  obtain ⟨report', hgo', hreport'⟩ := go_ingestBatch_error hcreate' schedule' now' input
  exact ⟨c, c', report, report', hcreate, hgo, hgo', hreport, hreport'⟩

/-- Three reasons why each record has the same turns both times. -/
theorem Batch.sameTurns_order {schedule schedule' : Schedule} {window : ℕ} {values : List Json}
    (h : window ≤ 1 ∨ schedule = schedule' ∨ (Batch.submissions values).Pairwise i.Unlike) :
    i.SameTurns (order schedule window values) (order schedule' window values) := by
  have hperm := order_perm schedule window values
  have hperm' := order_perm schedule' window values
  rcases h with hwindow | rfl | hunlike
  · rw [order_of_window schedule hwindow, order_of_window schedule' hwindow]
    exact fun localId ↦ rfl
  · exact fun localId ↦ rfl
  · exact .of_unlike (hperm.trans hperm'.symm)
      ((hperm.pairwise_iff Ingester.Unlike.symm).mpr hunlike)

/-- **Batches are idempotent.** A batch is ingested twice in a row, from a world that the engine
leads to, whatever the schedules are. Both times succeed in ingesting it, or the ingester cannot be
set up and both say why. The second time changes no row of the table of owners, and merges no
cluster. If no submission of the batch deletes, the second time inserts nothing, updates as many
records as the first time inserted or updated, and ignores as many submissions. Every record has the
payload then that was stored last, and is in the cluster that owns the values of this payload, as it
did before. So nothing is left to change if each record has the same turns both times, as it has in
a window with room for one, with the same schedule, or if no two submissions name the same record:
then the second time changes no record, and no membership of a record under a match key, unless the
last set of values of the record is empty. Such a record is put into a new cluster of its own. -/
theorem ingestBatch_idempotent (h : Reachable w) (hcache : w.cache.Made) (access : Access)
    (tenant : TenantId) (request : IngestRequest) (settings : IngestSettings)
    (schedule schedule' : Schedule) (hnow : now < Datestamp.limit)
    (hnow' : now' < Datestamp.limit) {input : List Char}
    (hinput : (Json.readStream input).isComplete = true)
    (hids : ((ingestBatch access tenant request settings schedule' now' input).go
      ((ingestBatch access tenant request settings schedule now input).go w).2).2.ids.next
        < idLimit) :
    let values := (Json.readStream input).values
    let order := Batch.order schedule settings.window values
    let order' := Batch.order schedule' settings.window values
    ∃ report report' s s',
      (ingestBatch access tenant request settings schedule now input).go w = (.ok report, s) ∧
      (ingestBatch access tenant request settings schedule' now' input).go s
        = (.ok report', s') ∧
      s'.tables.owners = s.tables.owners ∧ MergesNothing s s' ∧
      ((∃ f w₀, (Ingester.create access tenant request settings).go w = (.error f, w₀) ∧
          report.result = .error f ∧ report'.result = .error f ∧
          s.tables = w.tables ∧ s'.tables = w.tables) ∨
        ∃ i w₀ summary summary',
          (Ingester.create access tenant request settings).go w = (.ok i, w₀) ∧
          report.result = .ok summary ∧ report'.result = .ok summary' ∧
          ((∀ a ∈ Batch.submissions values, a.delete = false) →
            summary'.ignored = summary.ignored ∧ summary'.inserted = 0 ∧
            summary'.updated = summary.inserted + summary.updated ∧
            i.Rewrites (i.deeds w.tables order) (i.deeds w.tables order') s.tables s'.tables ∧
            (i.SameTurns order order' →
              i.Repeats (i.deeds w.tables order) s.tables s'.tables)) ∧
          (settings.window ≤ 1 ∨ schedule = schedule' ∨
            (Batch.submissions values).Pairwise i.Unlike → i.SameTurns order order')) := by
  intro values order order'
  have hperm : order.Perm (Batch.submissions values) := Batch.order_perm _ _ _
  have hperm' : order.Perm order' := hperm.trans (Batch.order_perm _ _ _).symm
  rcases hdesign : Ingester.design access request settings w.tables with f | i
  · obtain ⟨c, c', report, report', hcreate, hgo, hgo', hreport, hreport'⟩ :=
      ingestBatch_refused hcache tenant hdesign schedule schedule' now now' input
    refine ⟨report, report', _, _, hgo, hgo', rfl, ?_,
      Or.inl ⟨f, _, hcreate, hreport, hreport', rfl, rfl⟩⟩
    refine mergesNothing_of_owners h.sound (fun config ↦ ?_) rfl
    exact (lasting_leads config).idle rfl (Nat.le_refl _)
  · obtain ⟨c, hc, hcreate⟩ := Ingester.go_create hcache access tenant request settings
    rw [hdesign] at hcreate
    obtain ⟨report, summary, hgo, hreport, hsummary⟩ :=
      go_ingestBatch_ok hcreate hinput schedule now
    rw [hgo] at hids
    have hids₁ := (ingestBatch_grows hinput now' _).trans_lt hids
    have ho : World.Orderly { w with cache := c } :=
      h.orderly_of_idles ⟨rfl, Nat.le_refl _⟩ ((i.carry_grows now order _).trans hids₁.le)
    have hfirst := i.carry_carried now order ho (ho.numbered h.sound) hids₁
    -- The second ingester is the first one, since match keys and what is kept have not changed.
    have hkept : (i.carry now order { w with cache := c }).2.cache.Made := by
      rw [Ingester.cache_carry]
      exact hc
    obtain ⟨c', -, hcreate'⟩ := Ingester.go_create hkept access tenant request settings
    rw [Ingester.design_congr hfirst.matchKeys, hdesign] at hcreate'
    obtain ⟨report', summary', hgo', hreport', hsummary'⟩ :=
      go_ingestBatch_ok hcreate' hinput schedule' now'
    rw [hgo'] at hids
    have hredone := i.carry_again (w := { w with cache := c }) h.sound ho hnow hnow' hperm'
      hids ⟨rfl, Nat.le_refl _⟩
    refine ⟨report, report', _, _, hgo, hgo', hredone.owners, hredone.merges, Or.inr ?_⟩
    refine ⟨i, _, summary, summary', hcreate, hreport, hreport', fun hkeep ↦ ?_,
      Batch.sameTurns_order⟩
    obtain ⟨hignored, hinserted, hupdated, hrest⟩ :=
      hredone.repeated fun a ha ↦ hkeep a (hperm.mem_iff.mp ha)
    obtain ⟨hsame, hnone, hall⟩ :=
      Summary.updated_again hsummary hsummary' hignored hinserted hupdated
    exact ⟨hsame, hnone, hall, hrest⟩

namespace Sample

/-- A record joins two clusters when it is named again, and one has no values. The number is no
submission. -/
def joining : List Char :=
  "[\"d\",[\"v\"]] [\"e\",[\"w\",\"y\"]] [\"d\",[\"v\",\"w\"]] [\"f\",[]] 7".toList

/-- The library after the batch, in which the record that is named twice is overtaken by itself. -/
def joined : Except Fault BatchReport × World :=
  (ingestBatch .free tenant request (settings.withWindow 3) (overtaking 3) 7 joining).go
    (run blank bridge)

end Sample

open Sample in
/-- The batch is ingested twice, with the same schedule. The second time the record that joined two
clusters stays, and the one without values is put into another cluster. -/
theorem joining_repeated : ∃ report report' s' summary summary',
    joined.1 = .ok report ∧ report.result = .ok summary ∧
    (ingestBatch .free tenant request (settings.withWindow 3) (overtaking 3) 8 joining).go joined.2
      = (.ok report', s') ∧
    report'.result = .ok summary' ∧ summary'.ignored = summary.ignored ∧ summary'.inserted = 0 ∧
    summary'.updated = summary.inserted + summary.updated ∧ MergesNothing joined.2 s' ∧
    s'.tables.owners = joined.2.tables.owners ∧ s'.tables.records = joined.2.tables.records ∧
    s'.tables.members.filter (fun m ↦ m.record = ⟨Uuid.ofNat 5⟩ && m.config = "isbn")
      = joined.2.tables.members.filter (fun m ↦ m.record = ⟨Uuid.ofNat 5⟩ && m.config = "isbn") ∧
    Settles "isbn" ⟨Uuid.ofNat 9⟩ [] joined.2.tables s'.tables := by
  have hcache : (run blank bridge).cache.Made := .of_isEmpty (by decide +kernel) (by decide +kernel)
  have hcomplete : (Json.readStream joining).isComplete = true := by decide +kernel
  have hkeep : ∀ a ∈ Batch.submissions (Json.readStream joining).values, a.delete = false := by
    decide +kernel
  have hids : ((ingestBatch .free tenant request (settings.withWindow 3) (overtaking 3) 8
      joining).go ((ingestBatch .free tenant request (settings.withWindow 3) (overtaking 3) 7
      joining).go (run blank bridge)).2).2.ids.next < idLimit := by
    decide +kernel
  have hlast : ((Ingester.create .free tenant request (settings.withWindow 3)).go
      (run blank bridge)).1.toOption.any (fun i ↦
        let deeds := i.deeds (run blank bridge).tables
          (Batch.order (overtaking 3) 3 (Json.readStream joining).values)
        decide (i.lastSet? "isbn" (keyOf "d") deeds ≠ some []) &&
          decide (i.lastSet? "isbn" (keyOf "f") deeds = some [])) = true := by
    decide +kernel
  have hjoiner : (⟨.intact ⟨Uuid.ofNat 5⟩, keyOf "d", "[\"v\"]"⟩ : RecordRow) ∈
      joined.2.tables.records := by
    decide +kernel
  have hempty : (⟨.intact ⟨Uuid.ofNat 9⟩, keyOf "f", "[]"⟩ : RecordRow) ∈
      joined.2.tables.records := by
    decide +kernel
  have hearly : (7 : Datestamp) < Datestamp.limit := by decide
  have hlate : (8 : Datestamp) < Datestamp.limit := by decide
  rw [joined] at hjoiner hempty
  rw [joined]
  obtain ⟨report, report', s, s', hgo, hgo', howners, hmerges, ⟨f, w₀, hcreate, -⟩ |
      ⟨i, w₀, summary, summary', hcreate, hreport, hreport', hrepeat, hturns⟩⟩ :=
    ingestBatch_idempotent reachable_bridge hcache .free tenant request (settings.withWindow 3)
      (overtaking 3) (overtaking 3) hearly hlate hcomplete hids
  · rw [hcreate] at hlast
    cases hlast
  · rw [hcreate] at hlast
    simp only [Except.toOption, Option.any_some, Bool.and_eq_true, decide_eq_true_eq] at hlast
    obtain ⟨hignored, hinserted, hupdated, -, hrepeats⟩ := hrepeat hkeep
    have hsame := hrepeats (hturns (Or.inr (Or.inl rfl)))
    rw [hgo] at hjoiner hempty ⊢
    exact ⟨report, report', s', summary, summary', rfl, hreport, hgo', hreport', hignored,
      hinserted, hupdated, hmerges, howners, hsame.records,
      hsame.kept hjoiner rfl hlast.1, hsame.moved hempty rfl hlast.2⟩

open Sample in
/-- If the record is not overtaken the second time, it ends with its other payload. -/
example : ((ingestBatch .free tenant request (settings.withWindow 3) .inOrder 8 joining).go
    joined.2).2.tables.records.map RecordRow.payload
      = ["null", "null", "[\"v\",\"w\"]", "[\"w\",\"y\"]", "[]"] := by
  decide +kernel

end RecordLinkage
