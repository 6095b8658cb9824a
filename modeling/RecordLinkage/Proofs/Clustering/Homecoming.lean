import RecordLinkage.Proofs.History.Journal
import RecordLinkage.Proofs.Ingest.Repetition
import RecordLinkage.Proofs.Store.Removal

/-!
# Records that are deleted and come back

Deleting a record takes away its row and its memberships, under all match keys at once, and marks
the clusters as changed that held it. The values that it was assigned with stay where they are. So a
cluster may be left without a member, for any length of time, and own values nevertheless; it may
also be merged into another one, which then owns the values.

Whoever is assigned later with one of the values finds their owner, and becomes a member of it. This
may be the same record: its key is free again, and gets an identifier that no record has had, while
the supply lasts.

The results are about every later moment, be it in the middle of a call, as long as the match key is
neither cleared nor deleted.
-/

namespace RecordLinkage

open Clustering Work Tables

variable {config : String} {s s' s₀ u : World} {now : Datestamp} {r q : RecordId}
  {V W : List String} {a : Assignment} {t t' : Tables}

/-! ## What a deletion does -/

/-- **Only one record is removed**, from the records and from all clusters that held it. These are
marked as changed, once each. -/
structure Tables.Drops (r : RecordId) (now : Datestamp) (t t' : Tables) : Prop where
  records : t'.records = t.records.filter fun row ↦ row.id ≠ .intact r
  members : t'.members = t.members.filter fun m ↦ m.record ≠ r
  owners : t'.owners = t.owners
  matchKeys : t'.matchKeys = t.matchKeys
  marks : ∃ held : ClusterId → Bool, (∀ x, held x = true ↔ ∃ c, t.Holds c x r) ∧
    t'.marks = t.marks.map (advanced held now)

/-- Among the rows the key of a record is as good as its identifier. -/
theorem Tables.Wellformed.key_eq_iff (h : t.Wellformed) {key : RecordKey} {row row' : RecordRow}
    (hrow : t.recordOf? key = some row) (hrow' : row' ∈ t.records) :
    row'.key = key ↔ row'.id = row.id := by
  obtain ⟨hmem, hkey⟩ := h.recordOf?_eq_some_iff.mp hrow
  constructor
  · intro heq
    have hfound := h.recordOf?_of_mem hrow'
    rw [heq, hrow] at hfound
    rw [Option.some.inj hfound]
  · intro hid
    rw [h.record_ext hrow' hmem hid, hkey]

theorem Tables.Wellformed.deleteRecord_drops (h : t.Wellformed) {key : RecordKey} {row : RecordRow}
    (hrow : t.recordOf? key = some row) (hid : row.id = .intact r) (now : Datestamp) :
    t.Drops r now (t.deleteRecord key now).2 := by
  have hkey : ∀ row' ∈ t.records, row'.key = key ↔ row'.id = .intact r :=
    fun row' hrow' ↦ hid ▸ h.key_eq_iff hrow hrow'
  have hmember : ∀ m ∈ t.members,
      (t.records.any fun row' ↦ row'.id = .intact m.record && row'.key = key) = true ↔
        m.record = r := by
    intro m hm
    obtain ⟨row', hrow', hid'⟩ := h.member_record m hm
    rw [h.any_fits hrow' hid' fun row' ↦ row'.key = key, decide_eq_true_iff, hkey row' hrow', hid',
      Cell.intact.injEq]
  refine ⟨?_, ?_, rfl, rfl, t.holdsRecord fun row' ↦ row'.key = key, fun x ↦ ?_, rfl⟩
  · apply List.filter_congr
    intro row' hrow'
    rw [← decide_not, decide_eq_decide]
    exact not_congr (hkey row' hrow')
  · apply List.filter_congr
    intro m hm
    rw [Bool.eq_iff_iff, Bool.not_eq_true', Bool.eq_false_iff, decide_eq_true_iff]
    exact not_congr (hmember m hm)
  · rw [holdsRecord, List.any_eq_true]
    constructor
    · rintro ⟨⟨p, c, cell⟩, hm, hfits⟩
      rw [Bool.and_eq_true, decide_eq_true_iff, hmember _ hm] at hfits
      obtain ⟨rfl, rfl⟩ := hfits
      exact ⟨c, hm⟩
    · rintro ⟨c, hm⟩
      refine ⟨_, hm, ?_⟩
      rw [Bool.and_eq_true, hmember _ hm]
      exact ⟨decide_eq_true rfl, rfl⟩

theorem Tables.Drops.not_stores (h : t.Drops r now t') : ¬t'.Stores r := by
  rintro ⟨row, hrow, hid⟩
  rw [h.records, List.mem_filter, decide_eq_true_iff] at hrow
  exact hrow.2 hid

/-! ## Until the next assignment -/

/-- A step stores no record under an identifier that was handed out before. -/
theorem Step.stores (h : Step config s s') (hform : s.tables.Wellformed)
    (hb : s'.ids.next ≤ idLimit) (hq : s'.tables.Stores q) :
    s.tables.Stores q ∨ s.ids.next ≤ q.toNat := by
  cases h with
  | idle htables _ => exact Or.inl (htables ▸ hq)
  | assign _ hgo =>
    rw [Stores, (assigned_of_ok hform hgo).records] at hq
    exact Or.inl hq
  | enroll hgo => exact stores_of_enroll hgo hb hq
  | delete fits _ => exact Or.inl (stores_of_deleteRecords hq)
  | insertMatchKey hst =>
    obtain ⟨-, rfl⟩ := insertMatchKey_ok_iff.mp hst
    exact Or.inl hq
  | updateMatchKey | clear | deleteMatchKey => exact Or.inl hq

/-- **A record that is gone does not come back under its identifier.** -/
theorem Leads.not_stores (h : Leads config s s') (hs : s.tables.Sound) (hb : s'.ids.next ≤ idLimit)
    (hlt : r.toNat < s.ids.next) (hr : ¬s.tables.Stores r) : ¬s'.tables.Stores r := by
  induction h with
  | refl => exact hr
  | @tail s₁ s₂ hbefore hstep ih =>
    intro hr₂
    rcases hstep.stores (Leads.coarsens hbefore hs).1.form hb hr₂ with hr₁ | hle
    · exact ih (hstep.keepsOrder.1.trans hb) hr₁
    · exact Nat.not_le.mpr hlt ((Leads.keepsOrder hbefore).1.trans hle)

/-- **Values that are owned together stay so**, whoever their owner is. -/
theorem Leads.together (h : Leads config s s') (hs : s.tables.Sound)
    (hV : s.tables.Together config V) : s'.tables.Together config V := by
  obtain ⟨x, hx⟩ := hV
  obtain ⟨y, -, hy⟩ := (h.coarsens hs).2.gathered x
  exact ⟨y, fun v hv ↦ hy v (hx v hv)⟩

/-! ## The next assignment -/

/-- An assignment has put a record into the cluster that owns some values, which was there. -/
structure Tables.AtHome (t : Tables) (config : String) (V : List String) (q : RecordId)
    (a : Assignment) : Prop where
  created : a.created = false
  holds : t.Holds config a.cluster q
  owns : ∀ v ∈ V, t.Owns config a.cluster v

/-- **A record that is assigned with one of the values comes to their owner.** -/
theorem Clustering.atHome_of_assign (hform : s.tables.Wellformed)
    (hV : s.tables.Together config V) (hmeets : ∃ v ∈ V, v ∈ W)
    (hgo : (assign now q config W).go s = (.ok a, s')) : s'.tables.AtHome config V q a := by
  obtain ⟨x, hx⟩ := hV
  obtain ⟨v, hv, hvW⟩ := hmeets
  have ht : Touches s.tables config W x := ⟨v, hvW, hx v hv⟩
  have ha := assigned_of_ok hform hgo
  refine ⟨?_, (ha.holds _ q).mpr (Or.inl ⟨rfl, rfl⟩), fun w hw ↦ ?_⟩
  · obtain ⟨found, s₁, hfound, hgather, -⟩ := exists_halves hform hgo
    have howning := hfound.mem_owning.mpr ht
    rw [eq_answer_of_gather hgather]
    rcases hfound' : found.owning with - | ⟨winner, losers⟩
    · rw [hfound'] at howning
      exact absurd howning List.not_mem_nil
    · rfl
  · exact (ha.owns _ w).mpr (Or.inr ⟨x, hx w hw, Or.inl ⟨ht, rfl⟩⟩)

namespace Ingester

variable {i : Ingester} {payload : Json} {submission : Submission}
  {keys : List (MatchKey × Method)}

/-- Assigning a record under several match keys includes assigning it with each of the sets. -/
theorem exists_assign_of_forM (hnow : now < Datestamp.limit)
    (hgo : (keys.forM (i.assignUnder now q payload)).go s = (.ok (), s'))
    (hW : W ∈ setsUnder i.limit config payload keys) : ∃ s₁ a s₂, Leads config s s₁ ∧
      (assign now q config W).go s₁ = (.ok a, s₂) ∧ Leads config s₂ s' := by
  induction keys generalizing s with
  | nil => exact absurd hW List.not_mem_nil
  | cons k rest ih =>
    obtain ⟨⟨⟩, s₁, hfirst, hrest⟩ := go_bind_ok.mp hgo
    obtain ⟨values, a, hvalues, hassign⟩ := assignUnder_ok_iff.mp hfirst
    rw [setsUnder, hvalues] at hW
    rcases List.mem_append.mp hW with hlater | hfirst'
    · obtain ⟨s₂, a', s₃, hbefore, hgo', hafter⟩ := ih hrest hlater
      exact ⟨s₂, a', s₃, .head (.assign hnow hassign) hbefore, hgo', hafter⟩
    · by_cases hk : k.1.id = config
      · subst hk
        rw [if_pos rfl] at hfirst'
        obtain rfl := List.mem_singleton.mp hfirst'
        have hleads : Achieves (Leads k.1.id) (rest.forM (i.assignUnder now q payload)) := by
          refine .forM (lasting_leads _) _ fun k' _ s _ s' hgo ↦ ?_
          obtain ⟨_, _, -, hgo⟩ := assignUnder_ok_iff.mp hgo
          exact .single (.assign hnow hgo)
        exact ⟨s, a, s₁, .refl, hassign, hleads hrest⟩
      · rw [if_neg hk] at hfirst'
        exact absurd hfirst' List.not_mem_nil

/-- **Storing a payload includes assigning the record with each of its sets.** -/
theorem exists_assign_of_store {localId : String} {outcome : Outcome} (ho : s.Orderly)
    (hids : s'.ids.next < idLimit) (hnow : now < Datestamp.limit)
    (hgo : (i.store now localId payload).go s = (.ok outcome, s'))
    (hW : W ∈ i.sets config payload) : ∃ q,
      s'.tables.recordOf? (i.key localId) = some ⟨.intact q, i.key localId, payload.text⟩ ∧
      ∃ s₁ a s₂, Leads config s s₁ ∧ (assign now q config W).go s₁ = (.ok a, s₂) ∧
        Leads config s₂ s' := by
  obtain ⟨candidate, cell, q, s₁, henroll, hread, hassign, -⟩ := store_ok hgo
  obtain ⟨s₂, a, s₃, hbefore, hgo', hafter⟩ := exists_assign_of_forM hnow hassign hW
  refine ⟨q, ?_, s₂, a, s₃, .head (.enroll henroll) hbefore, hgo', hafter⟩
  have hgrows : Grows s s₁ := (enroll_grows _ _).achieves henroll
  have hgrows₁ : Grows s₁ s' := (i.forM_grows now q payload i.keys).achieves hassign
  have hids₁ : s₁.ids.next < idLimit := hgrows₁.trans_lt hids
  have ho₁ := ((enroll_keepsOrder _ _) henroll).2 hids₁.le ho
  obtain ⟨-, hrecords, -⟩ := i.assignAll_keepsRecords now q payload hassign ho₁.form
  rw [recordOf?, hrecords]
  exact (recordOf?_enroll ho₁ (hgrows.trans_lt hids₁) hread henroll).1

end Ingester

/-- **Deleted records come home.** In a world that the engine leads to, a record is stored that was
last assigned with some values under a match key. Deleting its key finds the record; the record is
removed with its memberships under all match keys, and nothing else is, and the clusters that held
it are marked as changed, once each. Whatever is done then is made of steps, unless the match key is
cleared or deleted. At any later moment, a record that is assigned with one of the values becomes a
member of the cluster that owns all of them, which is not a new one; and the record is another one.
In particular this happens when a submission stores a record whose payload has one of the values,
under the same key or under another one. -/
theorem deleted_record_returns_home {calls : List Call} {key : RecordKey} {row : RecordRow}
    (hempty : s₀.tables = .empty)
    (hcalls : ∀ c ∈ calls, c.op.IsEngine ∧ ∀ now ∈ c.op.reading?, now < Datestamp.limit)
    (hids : (run s₀ calls).ids.next < idLimit)
    (hrow : (run s₀ calls).tables.recordOf? key = some row) (hid : row.id = .intact r)
    (hlast : (journal config s₀ calls).lookup r = some V) (hnow : now < Datestamp.limit) :
    let s := run s₀ calls
    let deleted := s.tables.deleteRecord key now
    let after : World := { s with tables := deleted.2 }
    deleted.1 = true ∧ s.tables.Drops r now deleted.2 ∧
    (∀ rest : List Call, (∀ c ∈ rest, c.op.IsEngine ∧
        (∀ now ∈ c.op.reading?, now < Datestamp.limit) ∧ c.op.Retains config) →
      Leads config after (run after rest)) ∧
    ∀ u, Leads config after u →
      (∀ {now' q W a u'}, u.ids.next ≤ idLimit → (∃ v ∈ V, v ∈ W) →
        (Clustering.assign now' q config W).go u = (.ok a, u') →
          u'.tables.AtHome config V q a ∧ q ≠ r) ∧
      ∀ (i : Ingester) {now' submission key' payload W}, now' < Datestamp.limit →
        i.deed? u.tables submission = some (.store key' payload) →
        W ∈ i.sets config payload → (∃ v ∈ V, v ∈ W) →
        ((i.ingest now' submission).go u).2.ids.next < idLimit →
          ∃ outcome u' q, (i.ingest now' submission).go u = (.ok outcome, u') ∧
            u'.tables.recordOf? key' = some ⟨.intact q, key', payload.text⟩ ∧ q ≠ r ∧
            ∃ u₁ a u₂, Leads config u u₁ ∧
              (Clustering.assign now' q config W).go u₁ = (.ok a, u₂) ∧ Leads config u₂ u' ∧
              u₂.tables.AtHome config V q a := by
  intro s deleted after
  have hreachable : Reachable s := ⟨s₀, calls, hempty, rfl, hcalls⟩
  have hs : s.tables.Sound := hreachable.sound
  have ho : s.Orderly := hreachable.orderly hids.le
  have hdrops : s.tables.Drops r now deleted.2 := hs.form.deleteRecord_drops hrow hid now
  have hstored : s.tables.Stores r := ⟨row, List.mem_of_find?_eq_some hrow, hid⟩
  have hs₁ : after.tables.Sound := hs.deleteRecords _ hnow
  have ho₁ : after.Orderly := ho.deleteRecords _ now
  have hV : after.tables.Together config V := by
    have hrecorded : Recorded config (journal config s₀ calls) s :=
      recorded_journal hempty hcalls hids
    obtain ⟨x, -, hx⟩ := hrecorded.exists_home hstored hlast
    exact Together.congr ⟨x, hx⟩ hdrops.owners
  -- What is known of every later moment, also of those within a submission.
  have hlater : ∀ {u now' q W a u'}, Leads config after u → u.ids.next ≤ idLimit →
      (∃ v ∈ V, v ∈ W) → (Clustering.assign now' q config W).go u = (.ok a, u') →
        u'.tables.AtHome config V q a ∧ q ≠ r := by
    intro u now' q W a u' hu hb hmeets hgo
    have hform := (hu.coarsens hs₁).1.form
    refine ⟨atHome_of_assign hform (hu.together hs₁ hV) hmeets hgo, ?_⟩
    rintro rfl
    exact hu.not_stores hs₁ hb (ho.record_lt q hstored) hdrops.not_stores
      (assigned_of_ok hform hgo).stores
  refine ⟨?_, hdrops, fun rest hrest ↦ run_leads hrest after, fun u hu ↦ ⟨hlater hu, ?_⟩⟩
  · rw [Ingester.deleteRecord_fst, hrow]
    rfl
  · intro i now' submission key' payload W hnow' hdeed hW hmeets hids'
    have hb : u.ids.next ≤ idLimit :=
      ((i.ingest_grows now' submission u).trans_lt hids').le
    obtain ⟨localId, outcome, u', rfl, hgo, hstore⟩ :=
      Ingester.ingest_of_deed?_store (hu.keepsOrder.2 hb ho₁) hids' hdeed
    rw [hgo] at hids'
    obtain ⟨q, hrow', u₁, a, u₂, hbefore, hassign, hafter⟩ :=
      Ingester.exists_assign_of_store (hu.keepsOrder.2 hb ho₁) hids' hnow' hstore hW
    have hb₁ : u₁.ids.next ≤ idLimit := by
      have hgrows := (assign_grows _ _ _ _).achieves hassign
      exact (hgrows.trans hafter.keepsOrder.1).trans hids'.le
    obtain ⟨hhome, hne⟩ := hlater (hu.trans hbefore) hb₁ hmeets hassign
    exact ⟨outcome, u', q, hgo, hrow', hne, u₁, a, u₂, hbefore, hassign, hafter, hhome⟩

namespace Sample

/-- The first of two records that share a cluster is deleted, and then all others are. -/
def emptied : World :=
  run { run blank bridge with tables := ((run blank bridge).tables.deleteRecord (keyOf "a") 7).2 }
    [⟨.free, .deleteSource library 8⟩]

end Sample

open Sample in
/-- The cluster has lost all its members. The first record comes back with one of its values, under
an identifier of its own, and is in the cluster with all of them. -/
theorem bridge_record_returns :
    ((run blank bridge).tables.deleteRecord (keyOf "a") 7).1 = true ∧
    (run blank bridge).tables.Drops ⟨Uuid.ofNat 0⟩ 7
      ((run blank bridge).tables.deleteRecord (keyOf "a") 7).2 ∧
    ∃ outcome u' q a, ∃ u₂ : World,
      (reader.ingest 9 (.store "a" (strings ["x"]))).go emptied = (.ok outcome, u') ∧
      (∃ row, u'.tables.recordOf? (keyOf "a") = some row ∧ row.id = .intact q) ∧
      q ≠ ⟨Uuid.ofNat 0⟩ ∧ u₂.tables.AtHome "isbn" ["x", "y"] q a := by
  have hcalls : ∀ c ∈ bridge, c.op.IsEngine ∧ ∀ now ∈ c.op.reading?, now < Datestamp.limit := by
    simp [bridge, Operation.IsEngine, Operation.reading?, Datestamp.limit]
  have hrest : ∀ c ∈ [(⟨.free, .deleteSource library 8⟩ : Call)], c.op.IsEngine ∧
      (∀ now ∈ c.op.reading?, now < Datestamp.limit) ∧ c.op.Retains "isbn" := by
    simp [Operation.IsEngine, Operation.reading?, Operation.Retains, Datestamp.limit]
  have hids : (run blank bridge).ids.next < idLimit := by decide +kernel
  have hids' : ((reader.ingest 9 (.store "a" (strings ["x"]))).go emptied).2.ids.next
      < idLimit := by
    decide +kernel
  have hid : (((run blank bridge).tables.recordOf? (keyOf "a")).map RecordRow.id)
      = some (.intact ⟨Uuid.ofNat 0⟩) := by
    decide +kernel
  have hlast : (journal "isbn" blank bridge).lookup ⟨Uuid.ofNat 0⟩ = some ["x", "y"] := by
    decide +kernel
  have hW : ["x"] ∈ reader.sets "isbn" (strings ["x"]) := by decide +kernel
  have hdeed : reader.deed? emptied.tables (.store "a" (strings ["x"]))
      = some (.store (keyOf "a") (strings ["x"])) :=
    Ingester.deed?_eq_store rfl rfl rfl rfl (by decide +kernel)
  obtain ⟨row, hrow, hrowid⟩ := Option.map_eq_some_iff.mp hid
  obtain ⟨hfound, hdrops, hleads, hlater⟩ := deleted_record_returns_home rfl hcalls hids hrow
    hrowid hlast (show 7 < Datestamp.limit by decide)
  obtain ⟨-, hingest⟩ := hlater emptied (hleads _ hrest)
  obtain ⟨outcome, u', q, hgo, hrow', hne, _, a, u₂, -, -, -, hhome⟩ :=
    hingest reader (show 9 < Datestamp.limit by decide) hdeed hW ⟨"x", by decide, by decide⟩ hids'
  exact ⟨hfound, hdrops, outcome, u', q, a, u₂, hgo, ⟨_, hrow', rfl⟩, hne, hhome⟩

end RecordLinkage
