import RecordLinkage.Proofs.Clustering.Harvest
import RecordLinkage.Proofs.History.Caching
import RecordLinkage.Proofs.History.Journal
import RecordLinkage.Proofs.Ingest.Idempotence

/-!
# Computing a match key again

The records may all be assigned already with the values that their payloads have now, be it by
submissions or because the match key was computed anew before. Then computing it anew agrees with
what is there: the values of every set are owned together, so from the first assignment to the last
no owner changes and nothing is merged. A record with values is where their owner is, before and
after. A record without values was alone, and is alone again in a new cluster.

Whatever was before, a match key that was computed anew is up to date. So computing it a second time
changes neither who owns a value nor which records share a cluster.

## Why two histories are compared

What the records were assigned with before is in the journal, among much else; what they are
assigned with now is one entry for each. The clusters are determined by the two histories in
different ways. But owners are the same, and each record has the same latest set in both, and that
is all that it takes to find the record.
-/

namespace RecordLinkage

open Clustering Work Tables

variable {config : String} {s s' s₀ s₀' : World} {m : Method} {limit : ℕ} {now now' : Datestamp}
  {t : Tables} {H H' : List (RecordId × List String)} {q r : RecordId} {V : List String}

/-! ## Being up to date -/

/-- Every stored record was last assigned with the values of its payload. -/
def UpToDate (m : Method) (limit : ℕ) (t : Tables) (H : List (RecordId × List String)) : Prop :=
  ∀ r, t.Stores r → ∃ V W, Bears t m limit r V ∧ H.lookup r = some W ∧ ∀ v, v ∈ W ↔ v ∈ V

/-- Two records are members of one cluster. -/
def Tables.Share (t : Tables) (config : String) (q r : RecordId) : Prop :=
  ∃ x, t.Holds config x q ∧ t.Holds config x r

theorem Bears.stores (h : Bears t m limit r V) : t.Stores r := by
  obtain ⟨row, hrow, hid, -⟩ := h
  exact ⟨row, hrow, hid⟩

/-- A record bears one set, that of its payload. -/
theorem Bears.unique {W : List String} (hform : t.Wellformed) (hV : Bears t m limit r V)
    (hW : Bears t m limit r W) : V = W := by
  obtain ⟨row, hrow, hid, payload, values, hpayload, hvalues, rfl⟩ := hV
  obtain ⟨row', hrow', hid', payload', values', hpayload', hvalues', rfl⟩ := hW
  obtain rfl := hform.record_ext hrow hrow' (hid.trans hid'.symm)
  obtain rfl := Option.some.inj (hpayload.symm.trans hpayload')
  rw [Except.ok.inj (hvalues.symm.trans hvalues')]

/-- A record was last assigned with the values of its payload, as can be seen from its row. -/
def RecordRow.isCurrent (m : Method) (limit : ℕ) (H : List (RecordId × List String))
    (row : RecordRow) : Bool :=
  match row.id, Json.parse? row.payload with
  | .intact r, some payload =>
    match m.matchValues payload with
    | .ok values => H.lookup r = some (truncate limit values)
    | .error _ => false
  | _, _ => false

theorem upToDate_of_isCurrent (h : ∀ row ∈ t.records, row.isCurrent m limit H = true) :
    UpToDate m limit t H := by
  rintro r ⟨row, hrow, hid⟩
  have hcurrent := h row hrow
  rw [RecordRow.isCurrent, hid] at hcurrent
  rcases hpayload : Json.parse? row.payload with - | payload
  · rw [hpayload] at hcurrent
    cases hcurrent
  · rw [hpayload] at hcurrent
    dsimp only at hcurrent
    rcases hvalues : m.matchValues payload with f | values
    · rw [hvalues] at hcurrent
      cases hcurrent
    · rw [hvalues] at hcurrent
      exact ⟨_, _, ⟨row, hrow, hid, payload, values, hpayload, hvalues, rfl⟩,
        of_decide_eq_true hcurrent, fun v ↦ Iff.rfl⟩

namespace UpToDate

variable (h : UpToDate m limit s.tables H) (hform : s.tables.Wellformed)

include h hform

theorem readable : ∀ row ∈ s.tables.records, Readable row := by
  intro row hrow
  obtain ⟨r, hid⟩ := hform.record_intact row hrow
  obtain ⟨V, -, ⟨row', hrow', hid', payload, -, hpayload, -⟩, -⟩ := h r ⟨row, hrow, hid⟩
  obtain rfl := hform.record_ext hrow hrow' (hid.trans hid'.symm)
  exact ⟨payload, hpayload⟩

theorem exists_lookup (hV : Bears s.tables m limit r V) :
    ∃ W, H.lookup r = some W ∧ ∀ v, v ∈ W ↔ v ∈ V := by
  obtain ⟨V', W, hV', hlast, hsame⟩ := h r hV.stores
  obtain rfl := hV.unique hform hV'
  exact ⟨W, hlast, hsame⟩

/-- The set that a record bears is owned together. -/
theorem together (hrecorded : Recorded config H s) (hV : Bears s.tables m limit r V) :
    s.tables.Together config V := by
  obtain ⟨W, hlast, hsame⟩ := h.exists_lookup hform hV
  obtain ⟨x, -, hx⟩ := hrecorded.exists_home hV.stores hlast
  exact ⟨x, fun v hv ↦ hx v ((hsame v).mpr hv)⟩

end UpToDate

/-! ## Two histories with the same latest sets -/

/-- The records that are stored have the same latest sets in two histories. -/
def Coincide (t : Tables) (H H' : List (RecordId × List String)) : Prop :=
  ∀ r, t.Stores r → ∃ W W', H.lookup r = some W ∧ H'.lookup r = some W' ∧ ∀ v, v ∈ W ↔ v ∈ W'

theorem Coincide.symm (h : Coincide t H H') : Coincide t H' H := by
  intro r hr
  obtain ⟨W, W', hW, hW', hWW⟩ := h r hr
  exact ⟨W', W, hW', hW, fun v ↦ (hWW v).symm⟩

section Compare

variable (htracks : Tracks config s₀ H s) (htracks' : Tracks config s₀' H' s')
  (hform : s.tables.Wellformed) (hform' : s'.tables.Wellformed) (howners : KeepsOwners s s')
  (hrecords : s'.tables.records = s.tables.records) (hsame : Coincide s.tables H H')

include htracks htracks' hform hform' howners hrecords hsame

/-- Records that share a cluster have values with one owner, or they are the same record. -/
theorem Tables.Share.of_coincide (h : s.tables.Share config q r) : s'.tables.Share config q r := by
  obtain ⟨x, hq, hr⟩ := h
  have hhome : ∀ {p}, s.tables.Holds config x p → ∃ W W' y, H.lookup p = some W ∧
      H'.lookup p = some W' ∧ (∀ v, v ∈ W ↔ v ∈ W') ∧ s'.tables.Holds config y p := by
    intro p hp
    have hstores := hform.stores_of_holds hp
    obtain ⟨W, W', hlast, hlast', hWW⟩ := hsame p hstores
    rw [Stores, ← hrecords] at hstores
    obtain ⟨y, hy⟩ := htracks'.present hstores (Or.inl (by rw [hlast']; rfl))
    exact ⟨W, W', y, hlast, hlast', hWW, hy⟩
  obtain ⟨V, V', y, hV, hV', hVV, hy⟩ := hhome hq
  obtain ⟨W, W', z, hW, hW', hWW, hz⟩ := hhome hr
  rcases V with - | ⟨v, V⟩
  · obtain rfl := (htracks.alone hq hV).2.2 r hr
    exact ⟨y, hy, hy⟩
  rcases W with - | ⟨w, W⟩
  · obtain rfl := (htracks.alone hr hW).2.2 q hq
    exact ⟨z, hz, hz⟩
  have hv : s'.tables.Owns config y v := htracks'.latest hy hV' v ((hVV v).mp List.mem_cons_self)
  have hw : s'.tables.Owns config z w := htracks'.latest hz hW' w ((hWW w).mp List.mem_cons_self)
  have hxv := htracks.latest hq hV v List.mem_cons_self
  have hxw := htracks.latest hr hW w List.mem_cons_self
  rw [Owns, ← howners] at hxv hxw
  obtain rfl := hform'.owns_unique hv hxv
  obtain rfl := hform'.owns_unique hw hxw
  exact ⟨_, hy, hz⟩

/-- A record with values stays in its cluster. -/
theorem Clustering.Tracks.filter_members_of_coincide {v : String} (hlast : H.lookup r = some V)
    (hv : v ∈ V) (hr : s.tables.Stores r) :
    s'.tables.members.filter (fun m ↦ m.record = r && m.config = config)
      = s.tables.members.filter fun m ↦ m.record = r && m.config = config := by
  obtain ⟨W, W', hW, hW', hWW⟩ := hsame r hr
  obtain rfl := Option.some.inj (hlast.symm.trans hW)
  have hr' : s'.tables.Stores r := by rwa [Stores, hrecords]
  refine hform.filter_members_congr hform' fun x ↦ ?_
  rw [htracks.holds_iff_owns hform hlast hv hr,
    htracks'.holds_iff_owns hform' hW' ((hWW v).mp hv) hr', Owns, howners, Owns]

end Compare

/-! ## Sets that are owned together -/

/-- Assigning records with sets that are owned together changes no owner. -/
theorem Clustering.owners_of_assignEach {recipe : Recipe} {entries : List (RecordId × List String)}
    (hform : s.tables.Wellformed)
    (htogether : ∀ e ∈ entries, s.tables.Together recipe.config e.2)
    (hgo : (assignEach recipe entries).go s = (.ok (), s')) : KeepsOwners s s' := by
  induction entries generalizing s with
  | nil =>
    obtain ⟨-, rfl⟩ := Prod.mk.inj hgo
    exact lasting_keepsOwners.refl s
  | cons e rest ih =>
    obtain ⟨hfirst, hrest⟩ := List.forall_mem_cons.mp htogether
    obtain ⟨a, s₁, hassign, hgo⟩ := go_bind_ok.mp hgo
    have howners : KeepsOwners s s₁ := by
      have hkeeps := owners_of_assign hform hfirst recipe.now e.1
      rwa [hassign] at hkeeps
    have hform₁ := ((assign_keepsForm _ _ _ _).achieves hassign) hform
    exact lasting_keepsOwners.trans howners
      (ih hform₁ (fun e he ↦ (hrest e he).congr howners) hgo)

/-! ## Once more -/

/-- **What computing a match key anew does to records that are up to date.** -/
structure Reaffirms (config : String) (m : Method) (limit : ℕ) (s s' : World) : Prop where
  records : s'.tables.records = s.tables.records
  owners : KeepsOwners s s'
  merges : MergesNothing s s'
  /-- A record with values stays where it is. -/
  kept : ∀ {r V}, Bears s.tables m limit r V → V ≠ [] →
    s'.tables.members.filter (fun m ↦ m.record = r && m.config = config)
      = s.tables.members.filter fun m ↦ m.record = r && m.config = config
  /-- A record without values is alone in a new cluster. -/
  moved : ∀ {r}, Bears s.tables m limit r [] → Settles config r [] s.tables s'.tables
  share_iff : ∀ q r, s'.tables.Share config q r ↔ s.tables.Share config q r

section Rebuild

variable {k : MatchKey} {access : Access} {handle handle' : Handle}

theorem rebuild_keepsSound (hnow : now < Datestamp.limit) (access : Access) (handle : Handle)
    (config : String) (limit : ℕ) : Respects KeepsSound (rebuild access handle config limit now) :=
  respects_rebuild lasting_keepsSound (fun _ _ ↦ assign_keepsSound hnow _ _ _) access handle limit

theorem rebuild_leads (hnow : now < Datestamp.limit) (access : Access) (handle : Handle)
    (c config : String) (limit : ℕ) :
    Respects (Leads c) (rebuild access handle config limit now) := by
  refine respects_rebuild (lasting_leads c) ?_ access handle limit
  intro r values s a s' hgo
  exact .single (.assign hnow hgo)

/-! ### The first time -/

/-- Assignments with the sets that were the latest before reaffirm them, if no owner changes. -/
theorem Clustering.Walked.reaffirms {E : List (RecordId × List String)}
    (hwalked : Walked config s E s') (h : Recorded config H s) (hs : s.tables.Sound)
    (hlast : ∀ {r V}, E.lookup r = some V ↔ Bears s.tables m limit r V)
    (hcurrent : UpToDate m limit s.tables H) (howners : KeepsOwners s s')
    (hleads : ∀ c, Leads c s s') : Reaffirms config m limit s s' := by
  have hform := hs.form
  have hform' := hwalked.orderly.form
  obtain ⟨s₀, -, -, htracks⟩ := h.exists_tracks
  have htracks' : Tracks config s E s' :=
    hwalked.course.tracks hform (h.orderly.numbered hs config)
  have hsame : Coincide s.tables H E := by
    intro r hr
    obtain ⟨V, W, hV, hW, hVW⟩ := hcurrent r hr
    exact ⟨W, V, hW, hlast.mpr hV, hVW⟩
  refine ⟨hwalked.records, howners, mergesNothing_of_owners hs hleads howners, ?_, ?_, ?_⟩
  · intro r V hV hne
    obtain ⟨v, hv⟩ := List.exists_mem_of_ne_nil V hne
    obtain ⟨W, hW, hVW⟩ := hcurrent.exists_lookup hform hV
    exact htracks.filter_members_of_coincide htracks' hform hform' howners hwalked.records hsame hW
      ((hVW v).mpr hv) hV.stores
  · intro r hV
    have hr' : s'.tables.Stores r := by
      rw [Stores, hwalked.records]
      exact hV.stores
    exact Ingester.settles_of_course h.orderly hs hform' hwalked.course hr' (hlast.mpr hV)
  · intro q r
    constructor
    · apply Share.of_coincide htracks' htracks hform' hform howners.symm hwalked.records.symm
      intro p hp
      rw [Stores, hwalked.records] at hp
      exact hsame.symm p hp
    · apply Share.of_coincide htracks htracks' hform hform' howners hwalked.records hsame

/-- **Computing a match key anew agrees with a match key that is up to date.** -/
theorem Recorded.reaffirms (h : Recorded config H s) (hs : s.tables.Sound) (hmade : s.cache.Made)
    (hsize : 0 < handle.pageSize) (hnow : now < Datestamp.limit)
    (hids : ((rebuild .free handle config limit now).go s).2.ids.next < idLimit)
    (hkey : s.tables.matchKey? config = .ok (some k)) (hmethod : k.createMethod = .ok m)
    (hcurrent : UpToDate m limit s.tables H) :
    ((rebuild .free handle config limit now).go s).1
        = .ok (some ⟨s.tables.records.length, 0⟩) ∧
      Reaffirms config m limit s ((rebuild .free handle config limit now).go s).2 := by
  have hform := hs.form
  choose f hf using Method.exists_matchValues hmethod
  obtain ⟨read, hread⟩ := hform.exists_reading
  have hreadable := hcurrent.readable hform
  have hleads : ∀ c, Leads c s ((rebuild .free handle config limit now).go s).2 :=
    fun c ↦ rebuild_leads hnow .free handle c config limit s
  obtain ⟨s₁, s', htables, hgo, hassign, hwalked⟩ :=
    go_rebuild h.orderly hkey hsize hids hmade hmethod hf hread hreadable
  rw [hgo] at hleads ⊢
  have howners : KeepsOwners s₁ s' := by
    apply owners_of_assignEach (htables ▸ hform) _ hassign
    intro e he
    have hV : Bears s.tables m limit e.1 e.2 :=
      (mem_entries_iff hread hf hreadable).mp (List.mem_reverse.mpr he)
    rw [htables]
    exact hcurrent.together hform h hV
  rw [KeepsOwners, htables] at howners
  exact ⟨rfl, hwalked.reaffirms h hs (lookup_entries_eq_some_iff hread hf hreadable hform)
    hcurrent howners hleads⟩

/-! ### The second time -/

theorem Recorded.walk {E : List (RecordId × List String)} (h : Recorded config H s)
    (hwalked : Walked config s E s') : Recorded config (E ++ H) s' where
  orderly := hwalked.orderly
  exists_course := by
    obtain ⟨s₀, ho₀, howners, hmembers, hcourse⟩ := h.exists_course
    exact ⟨s₀, ho₀, howners, hmembers, hcourse.trans hwalked.course⟩

/-- After every record was assigned, all are up to date. -/
theorem upToDate_entries {f : Json → List String} {read : RecordRow → Record} {t' : Tables}
    (hform : t.Wellformed) (hread : ∀ row ∈ t.records, Tells row (read row))
    (hf : ∀ payload, m.matchValues payload = .ok (f payload))
    (hreadable : ∀ row ∈ t.records, Readable row) (hrecords : t'.records = t.records) :
    UpToDate m limit t' (entries limit f read t ++ H) := by
  intro r hr
  rw [Stores, hrecords] at hr
  obtain ⟨V, hV⟩ := (stores_iff_exists_bears hf hreadable).mp hr
  refine ⟨V, V, ?_, ?_, fun v ↦ Iff.rfl⟩
  · have hbears : Bears t' m limit = Bears t m limit := bears_congr fun row ↦ by rw [hrecords]
    rwa [hbears]
  · rw [List.lookup_append, (lookup_entries_eq_some_iff hread hf hreadable hform).mpr hV,
      Option.some_or]

/-- The method is there and has payloads that it can be applied to. -/
def Ready (config : String) (t : Tables) : Prop :=
  (∀ row ∈ t.records, Readable row) ∧
    ∃ k m, t.matchKey? config = .ok (some k) ∧ k.createMethod = .ok m

theorem Computable.ready (h : Computable access handle config s) (hmade : s.cache.Made) :
    Ready config s.tables := by
  obtain ⟨-, -, hreadable, k, kept, hkey, hkept⟩ := h
  refine ⟨hreadable, k, kept.method, hkey, ?_⟩
  rw [← hmade.get_method handle.tenant k, hkept]
  rfl

/-- **The second time changes neither owners nor who shares a cluster.** -/
theorem Recorded.rebuild_again (h : Recorded config H s) (hs : s.tables.Sound)
    (hmade : s.cache.Made) (hsize : 0 < handle.pageSize) (hsize' : 0 < handle'.pageSize)
    (hnow : now < Datestamp.limit) (hnow' : now' < Datestamp.limit) {s₁ s₂ : World}
    (hfirst : ((rebuild .free handle config limit now).go s).2 = s₁)
    (hsecond : ((rebuild .free handle' config limit now').go s₁).2 = s₂)
    (hids : s₂.ids.next < idLimit) :
    KeepsOwners s₁ s₂ ∧ ∀ q r, s₂.tables.Share config q r ↔ s₁.tables.Share config q r := by
  have hmade₁ : s₁.cache.Made := hfirst ▸ made_rebuild hmade .free handle config limit now
  have hkeeps : KeepsSound s s₁ := hfirst ▸ rebuild_keepsSound hnow .free handle config limit s
  have hgrows : Grows s₁ s₂ := hsecond ▸ rebuild_grows .free handle' config limit now' s₁
  have hids₁ : s₁.ids.next < idLimit := hgrows.trans_lt hids
  have ho₁ := hkeeps.1.2 hids₁.le h.orderly
  rw [← hsecond] at hids
  rw [← hfirst] at hids₁
  by_cases hready : Ready config s.tables
  · obtain ⟨hreadable, k, m, hkey, hmethod⟩ := hready
    choose f hf using Method.exists_matchValues hmethod
    obtain ⟨read, hread⟩ := hs.form.exists_reading
    obtain ⟨-, s', -, hgo, -, hwalked⟩ :=
      go_rebuild h.orderly hkey hsize hids₁ hmade hmethod hf hread hreadable
    obtain rfl : s' = s₁ := by rw [← hfirst, hgo]
    have hkey₁ : s'.tables.matchKey? config = .ok (some k) := by
      rw [matchKey?, hwalked.matchKeys, ← matchKey?]
      exact hkey
    have hcurrent : UpToDate m limit s'.tables (entries limit f read s.tables ++ H) :=
      upToDate_entries hs.form hread hf hreadable hwalked.records
    obtain ⟨-, hagain⟩ := (h.walk hwalked).reaffirms (hkeeps.2 hs) hmade₁ hsize' hnow' hids hkey₁
      hmethod hcurrent
    rw [← hsecond]
    exact ⟨hagain.owners, hagain.share_iff⟩
  · have hidle : s₁.tables = s.tables := by
      have hno : ¬Computable .free handle config s := fun hc ↦ hready (hc.ready hmade)
      exact hfirst ▸ (rebuild_idles h.orderly hno hids₁).1
    have hidle' : s₂.tables = s₁.tables := by
      have hno : ¬Computable .free handle' config s₁ := fun hc ↦ hready (hidle ▸ hc.ready hmade₁)
      exact hsecond ▸ (rebuild_idles ho₁ hno hids).1
    exact ⟨by rw [KeepsOwners, hidle'], fun q r ↦ by rw [hidle']⟩

end Rebuild

/-- **Computing a match key anew is idempotent.** In a world that the engine leads to, let every
record be assigned last with the set of its payload, as the method of the match key computes it now.
Then computing the match key anew counts all records and no failures; it changes no row of the table
of owners, no membership of a record whose set is not empty, and merges nothing, and it puts every
record whose set is empty into a new cluster of its own. In any world that the engine leads to,
computing a match key anew a second time changes neither owners nor which records share a
cluster. -/
theorem rebuild_idempotent {calls : List Call} (hempty : s₀.tables = .empty)
    (hcalls : ∀ c ∈ calls, c.op.IsEngine ∧ ∀ now ∈ c.op.reading?, now < Datestamp.limit)
    (hmade : s₀.cache.Made) (config : String) (tenant : TenantId)
    (fetchSize limit : ℕ) (hnow : now < Datestamp.limit)
    (hids : ((rebuild .free (.writing tenant fetchSize) config limit now).go
      (run s₀ calls)).2.ids.next < idLimit) :
    let s := run s₀ calls
    let first := (rebuild .free (.writing tenant fetchSize) config limit now).go s
    (∀ {k m}, s.tables.matchKey? config = .ok (some k) → k.createMethod = .ok m →
      UpToDate m limit s.tables (journal config s₀ calls) →
        first.1 = .ok (some ⟨s.tables.records.length, 0⟩) ∧
        Reaffirms config m limit s first.2) ∧
    ∀ (tenant' : TenantId) (fetchSize' : ℕ) {now' : Datestamp}, now' < Datestamp.limit →
      let second := (rebuild .free (.writing tenant' fetchSize') config limit now').go first.2
      second.2.ids.next < idLimit → KeepsOwners first.2 second.2 ∧
        ∀ q r, second.2.tables.Share config q r ↔ first.2.tables.Share config q r := by
  intro s first
  have hsize := Handle.pageSize_writing_pos
  have hs : s.tables.Sound := Reachable.sound ⟨s₀, calls, hempty, rfl, hcalls⟩
  have hgrows : Grows s first.2 := rebuild_grows .free _ config limit now s
  have hrecorded : Recorded config (journal config s₀ calls) s :=
    recorded_journal hempty hcalls (hgrows.trans_lt hids)
  have hcache : s.cache.Made := made_run hmade calls
  constructor
  · intro k m hkey hmethod hcurrent
    exact hrecorded.reaffirms hs hcache (hsize _ _) hnow hids hkey hmethod hcurrent
  · intro tenant' fetchSize' now' hnow' second hids'
    exact hrecorded.rebuild_again hs hcache (hsize _ _) (hsize _ _) hnow hnow' rfl rfl hids'

namespace Sample

def submitSet (localId : String) (values : List String) : Call :=
  ⟨.free, .ingest reader 5 (.store localId (strings values))⟩

/-- One record is assigned because its match key is computed, and two when they are submitted. -/
def entered : List Call :=
  [⟨.free, .insertMatchKey isbn⟩,
    ⟨.free, .storeRecord (keyOf "a") (strings ["x", "y"])⟩,
    ⟨.free, .rebuild (.writing owner 1) "isbn" 600 5⟩,
    submitSet "b" ["y", "z"],
    submitSet "c" []]

/-- Computed anew, with pages of some size. -/
def recomputed (pageSize : ℕ) (s : World) : Except Fault (Option ReindexStats) × World :=
  (rebuild .free (.writing owner pageSize) "isbn" 600 9).go s

end Sample

open Sample in
/-- Nothing happens to the records that share a value. The one without values is put into another
cluster each time. -/
theorem entered_recomputed : (recomputed 2 (run blank entered)).1 = .ok (some ⟨3, 0⟩) ∧
    KeepsOwners (run blank entered) (recomputed 2 (run blank entered)).2 ∧
    MergesNothing (run blank entered) (recomputed 2 (run blank entered)).2 ∧
    (recomputed 2 (run blank entered)).2.tables.members.filter
        (fun m ↦ m.record = ⟨Uuid.ofNat 0⟩ && m.config = "isbn")
      = (run blank entered).tables.members.filter
        (fun m ↦ m.record = ⟨Uuid.ofNat 0⟩ && m.config = "isbn") ∧
    Settles "isbn" ⟨Uuid.ofNat 3⟩ [] (run blank entered).tables
      (recomputed 2 (run blank entered)).2.tables ∧
    KeepsOwners (recomputed 2 (run blank entered)).2
      (recomputed 1 (recomputed 2 (run blank entered)).2).2 ∧
    ∀ q r, (recomputed 1 (recomputed 2 (run blank entered)).2).2.tables.Share "isbn" q r ↔
      (recomputed 2 (run blank entered)).2.tables.Share "isbn" q r := by
  have hcalls : ∀ c ∈ entered, c.op.IsEngine ∧ ∀ now ∈ c.op.reading?, now < Datestamp.limit := by
    simp [entered, submitSet, Operation.IsEngine, Operation.reading?, Datestamp.limit]
  have hids : (recomputed 2 (run blank entered)).2.ids.next < idLimit := by decide +kernel
  have hids' : (recomputed 1 (recomputed 2 (run blank entered)).2).2.ids.next < idLimit := by
    decide +kernel
  have hcount : (run blank entered).tables.records.length = 3 := by decide +kernel
  have hcurrent : UpToDate (Extractor.toMethod ⟨.mk .root []⟩) 600 (run blank entered).tables
      (journal "isbn" blank entered) := upToDate_of_isCurrent (by decide +kernel)
  have hknown : ((run blank entered).tables.matchKey? "isbn").toOption.join.any (fun k ↦
      k.method = "jsonpath" && (k.params.get? "expr").bind Json.string? = some "$") = true := by
    decide +kernel
  have hlast : (journal "isbn" blank entered).lookup ⟨Uuid.ofNat 0⟩ = some ["x", "y"] := by
    decide +kernel
  have hlast' : (journal "isbn" blank entered).lookup ⟨Uuid.ofNat 3⟩ = some [] := by
    decide +kernel
  obtain ⟨V, W, hV, hW, hVW⟩ := hcurrent ⟨Uuid.ofNat 0⟩ (by unfold Stores; decide +kernel)
  obtain ⟨V', W', hV', hW', hVW'⟩ := hcurrent ⟨Uuid.ofNat 3⟩ (by unfold Stores; decide +kernel)
  obtain rfl := Option.some.inj (hlast.symm.trans hW)
  obtain rfl := Option.some.inj (hlast'.symm.trans hW')
  have hne : V ≠ [] := List.ne_nil_of_mem ((hVW "x").mp List.mem_cons_self)
  obtain rfl : V' = [] :=
    List.eq_nil_iff_forall_not_mem.mpr fun v hv ↦ List.not_mem_nil ((hVW' v).mpr hv)
  rw [recomputed] at hids
  rw [recomputed, recomputed] at hids'
  rw [recomputed, recomputed]
  obtain ⟨hfirst, hsecond⟩ := rebuild_idempotent rfl hcalls .empty "isbn" owner 2 600
    (show 9 < Datestamp.limit by decide) hids
  rcases hkey : (run blank entered).tables.matchKey? "isbn" with f | - | k
  · rw [hkey] at hknown
    cases hknown
  · rw [hkey] at hknown
    cases hknown
  · rw [hkey] at hknown
    change (k.method = "jsonpath" && (k.params.get? "expr").bind Json.string? = some "$") = true
      at hknown
    rw [Bool.and_eq_true, decide_eq_true_iff, decide_eq_true_iff] at hknown
    have hmethod : k.createMethod = .ok (Extractor.toMethod ⟨.mk .root []⟩) := by
      rw [MatchKey.createMethod, Method.create, hknown.1, hknown.2]
      rfl
    obtain ⟨hanswer, haffirms⟩ := hfirst hkey hmethod hcurrent
    rw [hcount] at hanswer
    exact ⟨hanswer, haffirms.owners, haffirms.merges, haffirms.kept hV hne, haffirms.moved hV',
      hsecond owner 1 (show 9 < Datestamp.limit by decide) hids'⟩

end RecordLinkage
