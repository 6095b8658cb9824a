import RecordLinkage.Proofs.Clustering.Renaming
import RecordLinkage.Proofs.Ingest.Dealing

/-!
# Batches converge

A batch may be given in any order and run through any window, and its submissions may overtake one
another: what it leaves behind is the same, as long as no two of them name the same record. Records and clusters that are new get their
identifiers in the order in which they turn up, so these may be exchanged. All others stay what they
are, and so does the identifier of a cluster that goes on.

The deeds of a batch do not depend on the order, and they determine the keys, the payloads and the
sets of values. So two orders are twins under every match key, once the new records are renamed by
their keys.
-/

namespace RecordLinkage

open Clustering Work Tables

variable {i : Ingester} {w s₁ s₂ : World} {a b : List Deed} {config : String} {now : Datestamp}

/-- **Two worlds that come from the same one are alike**, up to the names that were given since. -/
structure Alike (w s₁ s₂ : World) (ρ : Equiv.Perm RecordId) (κ : Equiv.Perm ClusterId) : Prop where
  /-- Records that were there keep their names. -/
  record_same : ∀ r, r.toNat < w.ids.next → ρ r = r
  /-- Clusters that were there keep their names. -/
  cluster_same : ∀ x, x.toNat < w.ids.next → κ x = x
  /-- The same payloads are stored under the same keys. -/
  records : ∀ r key payload, (⟨.intact r, key, payload⟩ : RecordRow) ∈ s₁.tables.records ↔
    (⟨.intact (ρ r), key, payload⟩ : RecordRow) ∈ s₂.tables.records
  /-- Under every match key the clusters own the same values. -/
  owns : ∀ c x v, s₁.tables.Owns c x v ↔ s₂.tables.Owns c (κ x) v
  /-- Under every match key the clusters hold the same records. -/
  holds : ∀ c x r, s₁.tables.Holds c x r ↔ s₂.tables.Holds c (κ x) (ρ r)
  /-- A value that was owned has one owner in both, which is no younger than the one it had. -/
  survives : ∀ c x v, w.tables.Owns c x v →
    ∃ y, y.toNat ≤ x.toNat ∧ s₁.tables.Owns c y v ∧ s₂.tables.Owns c y v

/-! ## Records by their keys -/

/-- After the same deeds there is no record of a key, or there is one with the same payload, and
with the same identifier if it is not new. -/
theorem Dealt.same_record (hw : w.tables.Wellformed) (h₁ : Dealt i a w s₁) (h₂ : Dealt i b w s₂)
    (hab : ∀ d, d ∈ a ↔ d ∈ b) (key : RecordKey) :
    s₁.tables.recordOf? key = none ∧ s₂.tables.recordOf? key = none ∨
      ∃ r₁ r₂ payload, s₁.tables.recordOf? key = some ⟨.intact r₁, key, payload⟩ ∧
        s₂.tables.recordOf? key = some ⟨.intact r₂, key, payload⟩ ∧
        (r₁ = r₂ ∨ w.ids.next ≤ r₁.toNat ∧ w.ids.next ≤ r₂.toNat) := by
  by_cases hdeed : ∃ d ∈ a, d.key = key
  · obtain ⟨⟨_, payload⟩ | _, hd, rfl⟩ := hdeed
    · obtain ⟨r₁, hr₁, hold₁, hnew₁⟩ := h₁.stored _ payload hd
      obtain ⟨r₂, hr₂, hold₂, hnew₂⟩ := h₂.stored _ payload ((hab _).mp hd)
      refine Or.inr ⟨r₁, r₂, payload.text, hr₁, hr₂, ?_⟩
      rcases hrow : w.tables.recordOf? (Deed.store _ payload).key with - | row
      · exact Or.inr ⟨hnew₁ hrow, hnew₂ hrow⟩
      · exact Or.inl (Cell.intact.inj ((hold₁ row hrow).symm.trans (hold₂ row hrow)))
    · exact Or.inl ⟨h₁.removed _ hd, h₂.removed _ ((hab _).mp hd)⟩
  · have hkey : ∀ d ∈ a, d.key ≠ key := fun d hd heq ↦ hdeed ⟨d, hd, heq⟩
    rw [h₁.untouched key hkey, h₂.untouched key fun d hd ↦ hkey d ((hab d).mpr hd)]
    rcases hrow : w.tables.recordOf? key with - | row
    · exact Or.inl ⟨rfl, rfl⟩
    · obtain ⟨r, hr⟩ := hw.record_intact row (List.mem_of_find?_eq_some hrow)
      have heq : row = ⟨.intact r, key, row.payload⟩ := by
        rw [← hr, ← key_of_recordOf? hrow]
      rw [heq]
      exact Or.inr ⟨r, r, row.payload, rfl, rfl, Or.inl rfl⟩

theorem Tables.stores_iff_exists {t : Tables} {r : RecordId} :
    t.Stores r ↔ ∃ key payload, (⟨.intact r, key, payload⟩ : RecordRow) ∈ t.records := by
  constructor
  · rintro ⟨⟨id, key, payload⟩, hrow, rfl⟩
    exact ⟨key, payload, hrow⟩
  · rintro ⟨key, payload, hrow⟩
    exact ⟨_, hrow, rfl⟩

theorem World.Orderly.numbered (ho : w.Orderly) (hw : w.tables.Sound) (config : String) :
    Numbered config w where
  owner_lt x v hx := by
    obtain ⟨m, hm, rfl, -⟩ := hw.owner_marked config x v hx
    exact ho.mark_lt m hm
  holder_lt x q hx := by
    obtain ⟨m, hm, rfl, -⟩ := hw.member_marked config x q hx
    exact ho.mark_lt m hm
  member_lt _ _ hx := ho.member_lt hx

/-- Two records of one key, or one record that was there before. -/
def Corresponds (w s₁ s₂ : World) (r₁ r₂ : RecordId) : Prop :=
  r₁.toNat < w.ids.next ∧ r₂ = r₁ ∨ ∃ key payload,
    s₁.tables.recordOf? key = some ⟨.intact r₁, key, payload⟩ ∧
    s₂.tables.recordOf? key = some ⟨.intact r₂, key, payload⟩ ∧
    (r₁ = r₂ ∨ w.ids.next ≤ r₁.toNat ∧ w.ids.next ≤ r₂.toNat)

/-- New records can be renamed by their keys. -/
theorem exists_perm_corresponds (hform₁ : s₁.tables.Wellformed) (hform₂ : s₂.tables.Wellformed) :
    ∃ ρ : Equiv.Perm RecordId, ∀ r₁ r₂, Corresponds w s₁ s₂ r₁ r₂ → ρ r₁ = r₂ := by
  refine exists_perm_of_one_to_one (fun x y y' h h' ↦ ?_) fun x x' y h h' ↦ ?_
  · rcases h with ⟨hold, rfl⟩ | ⟨key, payload, hx, hy, hsame⟩ <;>
      rcases h' with ⟨hold', rfl⟩ | ⟨key', payload', hx', hy', hsame'⟩
    · rfl
    · exact hsame'.resolve_right fun hnew ↦ absurd hold (Nat.not_lt.mpr hnew.1)
    · exact (hsame.resolve_right fun hnew ↦ absurd hold' (Nat.not_lt.mpr hnew.1)).symm
    · obtain rfl := hform₁.key_unique hx hx' rfl
      exact Cell.intact.inj (RecordRow.mk.inj (Option.some.inj (hy.symm.trans hy'))).1
  · rcases h with ⟨hold, hyx⟩ | ⟨key, payload, hx, hy, hsame⟩ <;>
      rcases h' with ⟨hold', hyx'⟩ | ⟨key', payload', hx', hy', hsame'⟩
    · exact hyx.symm.trans hyx'
    · rw [hyx] at hsame'
      exact (hsame'.resolve_right fun hnew ↦ absurd hold (Nat.not_lt.mpr hnew.2)).symm
    · rw [hyx'] at hsame
      exact hsame.resolve_right fun hnew ↦ absurd hold' (Nat.not_lt.mpr hnew.2)
    · obtain rfl := hform₂.key_unique hy hy' rfl
      exact Cell.intact.inj (RecordRow.mk.inj (Option.some.inj (hx.symm.trans hx'))).1

/-! ## Two orders of the same deeds -/

section Orders

variable {ρ : Equiv.Perm RecordId} (hw : w.tables.Sound) (h₁ : Dealt i a w s₁)
  (h₂ : Dealt i b w s₂) (hab : ∀ d, d ∈ a ↔ d ∈ b)
  (hρ : ∀ r₁ r₂, Corresponds w s₁ s₂ r₁ r₂ → ρ r₁ = r₂)

include hw h₁ h₂ hab hρ

/-- The same rows are there, but for the names of new records. -/
theorem Dealt.records_iff (r : RecordId) (key : RecordKey) (payload : String) :
    (⟨.intact r, key, payload⟩ : RecordRow) ∈ s₁.tables.records ↔
      (⟨.intact (ρ r), key, payload⟩ : RecordRow) ∈ s₂.tables.records := by
  have hmem₁ : s₁.tables.recordOf? key = some ⟨.intact r, key, payload⟩ ↔ _ ∧ key = key :=
    h₁.orderly.form.recordOf?_eq_some_iff
  have hmem₂ : s₂.tables.recordOf? key = some ⟨.intact (ρ r), key, payload⟩ ↔ _ ∧ key = key :=
    h₂.orderly.form.recordOf?_eq_some_iff
  simp only [and_true] at hmem₁ hmem₂
  rw [← hmem₁, ← hmem₂]
  rcases h₁.same_record hw.form h₂ hab key with ⟨hno₁, hno₂⟩ | ⟨r₁, r₂, p, hr₁, hr₂, hsame⟩
  · rw [hno₁, hno₂]
    exact ⟨fun h ↦ (nomatch h), fun h ↦ (nomatch h)⟩
  · have hr : ρ r₁ = r₂ := hρ r₁ r₂ (Or.inr ⟨key, p, hr₁, hr₂, hsame⟩)
    rw [hr₁, hr₂, ← hr]
    simp only [Option.some.injEq, RecordRow.mk.injEq, Cell.intact.injEq, true_and,
      EmbeddingLike.apply_eq_iff_eq]

/-- **The same deeds in two orders are twins** under every match key. -/
theorem Dealt.exists_twins (ho : w.Orderly) (config : String) :
    ∃ H₁ H₂, Twins ρ config w H₁ s₁ H₂ s₂ := by
  obtain ⟨H₁, hcourse₁, hH₁⟩ := h₁.course config
  obtain ⟨H₂, hcourse₂, hH₂⟩ := h₂.course config
  have hn := ho.numbered hw config
  have hform₁ := h₁.orderly.form
  have hform₂ := h₂.orderly.form
  have hrecords := h₁.records_iff hw h₂ hab hρ
  refine ⟨H₁, H₂, hw.form, hform₁, hform₂, hn, hcourse₁.tracks hw.form hn,
    hcourse₂.tracks hw.form hn, fun S ↦ ?_, fun r ↦ ?_, fun r hr ↦ ?_,
    fun r hr ↦ hρ r r (Or.inl ⟨hr, rfl⟩)⟩
  · rw [hH₁.sets, hH₂.sets]
    simp only [hab]
  · rw [stores_iff_exists, stores_iff_exists]
    simp only [hrecords]
  · obtain ⟨key, payload, hrow⟩ := stores_iff_exists.mp hr
    have hr₁ := hform₁.recordOf?_of_mem hrow
    have hr₂ := hform₂.recordOf?_of_mem ((hrecords r key payload).mp hrow)
    by_cases hstore : ∃ payload, .store key payload ∈ a
    · obtain ⟨payload', hd⟩ := hstore
      rw [hH₁.lookup hd hr₁ rfl, hH₂.lookup ((hab _).mp hd) hr₂ rfl]
    · have hno : ∀ payload, .store key payload ∉ a := fun p hd ↦ hstore ⟨p, hd⟩
      have hno' : ∀ payload, .store key payload ∉ b := fun p hd ↦ hno p ((hab _).mpr hd)
      rw [lookup_eq_none_of_listed hform₁ hH₁.listed hr₁ rfl hno,
        lookup_eq_none_of_listed hform₂ hH₂.listed hr₂ rfl hno']

end Orders

/-- **The same deeds in two orders leave the same behind.** -/
theorem Dealt.alike (hw : w.tables.Sound) (ho : w.Orderly) (h₁ : Dealt i a w s₁)
    (h₂ : Dealt i b w s₂) (hab : ∀ d, d ∈ a ↔ d ∈ b) (hs₁ : s₁.tables.Sound)
    (hs₂ : s₂.tables.Sound) : ∃ ρ κ, Alike w s₁ s₂ ρ κ := by
  obtain ⟨ρ, hρ⟩ := exists_perm_corresponds (w := w) hs₁.form hs₂.form
  have htwins := h₁.exists_twins hw h₂ hab hρ ho
  obtain ⟨κ, hsame, howns, hholds⟩ := exists_renaming hs₁ hs₂ htwins
  refine ⟨ρ, κ, fun r hr ↦ hρ r r (Or.inl ⟨hr, rfl⟩), hsame, h₁.records_iff hw h₂ hab hρ, howns,
    hholds, fun c x v hx ↦ ?_⟩
  obtain ⟨H₁, H₂, htwin⟩ := htwins c
  have hnamed : Named w.tables c H₁ v := Or.inl ⟨x, hx⟩
  obtain ⟨y, hy⟩ := (htwin.first.owned v).mpr hnamed
  have hle : y.toNat ≤ x.toNat := htwin.first.oldest hy hx hnamed.linked
  have hold : y.toNat < w.ids.next := hle.trans_lt ((ho.numbered hw c).owner_lt x v hx)
  have hy₂ := (howns c y v).mp hy
  rw [hsame y hold] at hy₂
  exact ⟨y, hle, hy, hy₂⟩

namespace Alike

variable {ρ : Equiv.Perm RecordId} {κ : Equiv.Perm ClusterId}

/-- A world is like itself, when nothing has happened to its tables. -/
theorem self (htables : s₁.tables = w.tables) : Alike w s₁ s₁ (Equiv.refl _) (Equiv.refl _) where
  record_same _ _ := rfl
  cluster_same _ _ := rfl
  records _ _ _ := Iff.rfl
  owns _ _ _ := Iff.rfl
  holds _ _ _ := Iff.rfl
  survives c x v hx := by
    rw [← htables] at hx
    exact ⟨x, Nat.le_refl _, hx, hx⟩

/-- The time before may be put back, as long as nothing has happened to the tables since. -/
theorem since {w₀ : World} (h : Alike w₀ s₁ s₂ ρ κ) (htables : w₀.tables = w.tables)
    (hgrows : Grows w w₀) : Alike w s₁ s₂ ρ κ where
  record_same r hr := h.record_same r (hr.trans_le hgrows)
  cluster_same x hx := h.cluster_same x (hx.trans_le hgrows)
  records := h.records
  owns := h.owns
  holds := h.holds
  survives c x v hx := by
    rw [← htables] at hx
    exact h.survives c x v hx

/-- Only the tables matter. -/
theorem congr {s₃ : World} (h : Alike w s₁ s₂ ρ κ) (htables : s₃.tables = s₂.tables) :
    Alike w s₁ s₃ ρ κ where
  record_same := h.record_same
  cluster_same := h.cluster_same
  records r key payload := by
    rw [htables]
    exact h.records r key payload
  owns c x v := by
    rw [htables]
    exact h.owns c x v
  holds c x r := by
    rw [htables]
    exact h.holds c x r
  survives c x v hx := by
    rw [htables]
    exact h.survives c x v hx

/-- Worlds that are alike store the same payloads under the same keys. -/
theorem stored_iff (h : Alike w s₁ s₂ ρ κ) (hform₁ : s₁.tables.Wellformed)
    (hform₂ : s₂.tables.Wellformed) (key : RecordKey) (payload : String) :
    (∃ row ∈ s₁.tables.records, row.key = key ∧ row.payload = payload) ↔
      ∃ row ∈ s₂.tables.records, row.key = key ∧ row.payload = payload := by
  constructor
  · rintro ⟨⟨id, key, payload⟩, hrow, rfl, rfl⟩
    obtain ⟨r, rfl⟩ := hform₁.record_intact _ hrow
    exact ⟨_, (h.records r key payload).mp hrow, rfl, rfl⟩
  · rintro ⟨⟨id, key, payload⟩, hrow, rfl, rfl⟩
    obtain ⟨r, rfl⟩ := hform₂.record_intact _ hrow
    obtain ⟨q, rfl⟩ := ρ.surjective r
    exact ⟨_, (h.records q key payload).mpr hrow, rfl, rfl⟩

end Alike

/-! ## Two orders of the same batch -/

/-- Nothing happens to the tables. -/
def Idles (s s' : World) : Prop := s'.tables = s.tables ∧ Grows s s'

theorem lasting_idles : Lasting Idles where
  trans h h' := ⟨h'.1.trans h.1, h.2.trans h'.2⟩
  idle htables hgrows := ⟨htables, hgrows⟩

/-- A world to whose tables nothing has happened is in order, as long as there are identifiers. -/
theorem Reachable.orderly_of_idles {w₀ : World} (h : Reachable w) (hidle : Idles w w₀)
    (hids : w₀.ids.next ≤ idLimit) : w₀.Orderly :=
  (lasting_keepsOrder.idle hidle.1 hidle.2).2 hids (h.orderly (hidle.2.trans hids))

/-- **Submissions that name different records may be carried out in any order.** The world that the
engine leads to was met some time before, and nothing has happened to its tables since. -/
theorem Reachable.carry_alike {w₀ : World} {subs subs' : List Submission} {now' : Datestamp}
    (h : Reachable w) (hidle : Idles w w₀) (hperm : subs.Perm subs')
    (hunlike : subs.Pairwise i.Unlike) (hnow : now < Datestamp.limit)
    (hnow' : now' < Datestamp.limit) (hids : (i.carry now subs w₀).2.ids.next < idLimit)
    (hids' : (i.carry now' subs' w₀).2.ids.next < idLimit) :
    i.tally now subs w₀ = i.tally now' subs' w₀ ∧
      (i.carry now subs w₀).2.tables.Sound ∧ (i.carry now' subs' w₀).2.tables.Sound ∧
      ∃ ρ κ, Alike w (i.carry now subs w₀).2 (i.carry now' subs' w₀).2 ρ κ := by
  have hlt : w₀.ids.next < idLimit := (i.carry_grows now subs w₀).trans_lt hids
  have ho : w₀.Orderly := h.orderly_of_idles hidle hlt.le
  obtain ⟨htables, hgrows⟩ := hidle
  have hw : w₀.tables.Sound := htables ▸ h.sound
  have hunlike' : subs'.Pairwise i.Unlike := (hperm.pairwise_iff Ingester.Unlike.symm).mp hunlike
  obtain ⟨htally, hdealt⟩ := Ingester.carry_dealt hunlike ho hids
  obtain ⟨htally', hdealt'⟩ := Ingester.carry_dealt hunlike' ho hids'
  have hsound := (i.carry_respects now lasting_keepsSound (i.ingest_keepsSound hnow) subs w₀).2 hw
  have hsound' :=
    (i.carry_respects now' lasting_keepsSound (i.ingest_keepsSound hnow') subs' w₀).2 hw
  refine ⟨?_, hsound, hsound', ?_⟩
  · rw [htally, htally']
    exact (hperm.map _).sum_eq
  · -- The deeds of the submissions are the same, since the order does not matter for them.
    have hdeeds : ∀ d, d ∈ i.deeds w₀.tables subs ↔ d ∈ i.deeds w₀.tables subs' :=
      fun d ↦ (hperm.filterMap _).mem_iff
    obtain ⟨ρ, κ, halike⟩ := hdealt.alike hw ho hdealt' hdeeds hsound hsound'
    exact ⟨ρ, κ, halike.since htables hgrows⟩

section Batches

variable {access : Access} {tenant : TenantId} {request : IngestRequest}
  {settings : IngestSettings} {w₀ : World} {input : List Char}

/-- What comes of a batch whose ingester cannot be set up. -/
theorem go_ingestBatch_error {f : Fault}
    (hcreate : (Ingester.create access tenant request settings).go w = (.error f, w₀))
    (schedule : Schedule) (now : Datestamp) (input : List Char) : ∃ report,
    (ingestBatch access tenant request settings schedule now input).go w = (.ok report, w₀) ∧
      report.result = .error f := by
  rw [ingestBatch, go_bind, go_outcome, hcreate]
  exact ⟨_, rfl, rfl⟩

/-- What comes of a batch otherwise: its submissions are carried out, and its values are counted. -/
theorem go_ingestBatch
    (hcreate : (Ingester.create access tenant request settings).go w = (.ok i, w₀))
    (schedule : Schedule) (now : Datestamp) (input : List Char) :
    let order := Batch.order schedule settings.window (Json.readStream input).values
    ∃ b, (ingestBatch access tenant request settings schedule now input).go w
        = (.ok (Batch.report b (Json.readStream input).isComplete), (i.carry now order w₀).2) ∧
      Batch.Counted i now order (Json.readStream input).values w₀ b.flow.summary := by
  obtain ⟨b, hgo, hcounted⟩ :=
    Batch.go_run i now schedule settings.window (Json.readStream input).values w₀
  refine ⟨b, ?_, hcounted⟩
  rw [ingestBatch, go_bind, go_outcome, hcreate]
  simp only
  rw [go_bind, hgo]
  rfl

/-- What comes of it if it is read to the end. -/
theorem go_ingestBatch_ok
    (hcreate : (Ingester.create access tenant request settings).go w = (.ok i, w₀))
    (hinput : (Json.readStream input).isComplete = true) (schedule : Schedule) (now : Datestamp) :
    let order := Batch.order schedule settings.window (Json.readStream input).values
    ∃ report summary, (ingestBatch access tenant request settings schedule now input).go w
        = (.ok report, (i.carry now order w₀).2) ∧
      report.result = .ok summary ∧
      summary.tally = i.tally now order w₀
        + Batch.malformed (Json.readStream input).values • Outcome.ignored.tally := by
  obtain ⟨b, hgo, hcounted⟩ := go_ingestBatch hcreate schedule now input
  refine ⟨_, b.flow.summary, hgo, ?_, hcounted.tally⟩
  rw [Batch.report, hinput, if_pos rfl]

end Batches

/-- The same settings with another window. -/
def IngestSettings.withWindow (settings : IngestSettings) (window : ℕ) : IngestSettings :=
  { settings with window }

/-- **Batches converge.** A batch is run through some window, and the same values in another order
through another window, from a world that the engine leads to, while no two of its submissions name
the same record. Whatever the schedules are, either the ingester cannot be set up, and both batches
say so; or both count the same. The same payloads are stored under the same keys, and all match keys
have the same clusters, up to the names of the records and clusters that are new. -/
theorem batches_converge (h : Reachable w) (access : Access) (tenant : TenantId)
    (request : IngestRequest) (settings : IngestSettings) (window window' : ℕ)
    (schedule schedule' : Schedule) {now now' : Datestamp} (hnow : now < Datestamp.limit)
    (hnow' : now' < Datestamp.limit) {input input' : List Char}
    (hinput : (Json.readStream input).isComplete = true)
    (hinput' : (Json.readStream input').isComplete = true)
    (hperm : (Json.readStream input).values.Perm (Json.readStream input').values)
    (hunlike : ∀ i w₀, (Ingester.create access tenant request settings).go w = (.ok i, w₀) →
      (Batch.submissions (Json.readStream input).values).Pairwise i.Unlike)
    (hids : ((ingestBatch access tenant request (settings.withWindow window) schedule now input).go
      w).2.ids.next < idLimit)
    (hids' : ((ingestBatch access tenant request (settings.withWindow window') schedule' now'
      input').go w).2.ids.next < idLimit) :
    ∃ report report' s s',
      (ingestBatch access tenant request (settings.withWindow window) schedule now input).go w
        = (.ok report, s) ∧
      (ingestBatch access tenant request (settings.withWindow window') schedule' now' input').go w
        = (.ok report', s') ∧
      ((∃ f w₀, (Ingester.create access tenant request settings).go w = (.error f, w₀) ∧
          report.result = .error f ∧ report'.result = .error f) ∨
        ∃ summary summary', report.result = .ok summary ∧ report'.result = .ok summary' ∧
          summary.tally = summary'.tally) ∧
      (∀ key payload, (∃ row ∈ s.tables.records, row.key = key ∧ row.payload = payload) ↔
        ∃ row ∈ s'.tables.records, row.key = key ∧ row.payload = payload) ∧
      ∃ ρ κ, Alike w s s' ρ κ := by
  have hidle := Ingester.respects_create lasting_idles access tenant request settings w
  -- The window has no part in setting up the ingester.
  have hsame : ∀ n, (Ingester.create access tenant request (settings.withWindow n)).go w
      = (Ingester.create access tenant request settings).go w := fun _ ↦ rfl
  rcases hcreate : (Ingester.create access tenant request settings).go w with ⟨f | i, w₀⟩
  · rw [hcreate] at hidle
    obtain ⟨report, hgo, hreport⟩ :=
      go_ingestBatch_error ((hsame window).trans hcreate) schedule now input
    obtain ⟨report', hgo', hreport'⟩ :=
      go_ingestBatch_error ((hsame window').trans hcreate) schedule' now' input'
    exact ⟨report, report', w₀, w₀, hgo, hgo', Or.inl ⟨f, w₀, rfl, hreport, hreport'⟩,
      fun key payload ↦ Iff.rfl, _, _, .self hidle.1⟩
  · rw [hcreate] at hidle
    obtain ⟨report, summary, hgo, hreport, hsummary⟩ :=
      go_ingestBatch_ok ((hsame window).trans hcreate) hinput schedule now
    obtain ⟨report', summary', hgo', hreport', hsummary'⟩ :=
      go_ingestBatch_ok ((hsame window').trans hcreate) hinput' schedule' now'
    rw [hgo] at hids
    rw [hgo'] at hids'
    have hperm₁ := Batch.order_perm schedule window (Json.readStream input).values
    have hperm₂ := Batch.order_perm schedule' window' (Json.readStream input').values
    have hsubs := hperm.filterMap fun v ↦ (Submission.ofJson v).toOption
    have hmalformed := hperm.countP_eq fun v ↦ (Submission.ofJson v).toOption.isNone
    have hunlike₁ := (hperm₁.pairwise_iff Ingester.Unlike.symm).mpr (hunlike i w₀ hcreate)
    obtain ⟨htally, hsound, hsound', ρ, κ, halike⟩ :=
      h.carry_alike hidle (hperm₁.trans (hsubs.trans hperm₂.symm)) hunlike₁ hnow hnow' hids hids'
    refine ⟨report, report', _, _, hgo, hgo', Or.inr ⟨summary, summary', hreport, hreport', ?_⟩,
      halike.stored_iff hsound.form hsound'.form, ρ, κ, halike⟩
    rw [hsummary, hsummary']
    exact congrArg₂ _ htally (congrArg (· • _) hmalformed)

namespace Sample

def tenant : TenantId := ⟨"t", accepts_t⟩

def request : IngestRequest := ⟨library, 1, none⟩

def settings : IngestSettings := ⟨1, 600, 1⟩

/-- Two records share a new value, a third one has an old value, one is deleted. The number is no
submission. -/
def batch : List Char :=
  "[\"d\",[\"v\",\"w\"]] 7 [\"e\",[\"w\"]] [\"f\",[\"x\"]] [\"b\",null,true]".toList

def batchReversed : List Char :=
  "[\"b\",null,true] [\"f\",[\"x\"]] [\"e\",[\"w\"]] 7 [\"d\",[\"v\",\"w\"]]".toList

/-- When so many values were handed on, the second and the third of those that are outstanding
overtake the first one. -/
def overtaking (n : ℕ) : Schedule := fun k ↦ if k = n then [2, 1] else []

end Sample

open Sample in
/-- A batch is run through a window where the third record overtakes the two before it, and backwards
without a window, on a library that has records. The cluster of an old value stays the same. -/
theorem batch_converges_reversed : ∃ report report' s s' ρ κ,
    (ingestBatch .free tenant request (settings.withWindow 3) (overtaking 4) 7 batch).go
      (run blank bridge) = (.ok report, s) ∧
    (ingestBatch .free tenant request (settings.withWindow 1) .inOrder 8 batchReversed).go
      (run blank bridge) = (.ok report', s') ∧
    Alike (run blank bridge) s s' ρ κ ∧
    ∃ y, y.toNat ≤ 2 ∧ s.tables.Owns "isbn" y "x" ∧ s'.tables.Owns "isbn" y "x" := by
  have hperm : (Json.readStream batch).values.Perm (Json.readStream batchReversed).values :=
    List.reverse_perm (Json.readStream batchReversed).values
  have hnames : (Batch.submissions (Json.readStream batch).values).Pairwise
      fun a b ↦ a.localId.isSome ∧ b.localId.isSome ∧ a.localId ≠ b.localId := by
    decide +kernel
  have hids : ((ingestBatch .free tenant request (settings.withWindow 3) (overtaking 4) 7
      batch).go (run blank bridge)).2.ids.next < idLimit := by
    decide +kernel
  have hids' : ((ingestBatch .free tenant request (settings.withWindow 1) .inOrder 8
      batchReversed).go (run blank bridge)).2.ids.next < idLimit := by
    decide +kernel
  have hold : (run blank bridge).tables.Owns "isbn" ⟨Uuid.ofNat 2⟩ "x" := by
    have hrow : (⟨"isbn", "x", .intact ⟨Uuid.ofNat 2⟩⟩ : OwnerRow) ∈
        (run blank bridge).tables.owners := by
      decide +kernel
    exact hrow
  have hunlike : ∀ i w₀, (Ingester.create .free tenant request settings).go (run blank bridge)
        = (.ok i, w₀) →
      (Batch.submissions (Json.readStream batch).values).Pairwise i.Unlike :=
    fun i _ _ ↦ hnames.imp fun h ↦ Ingester.unlike_of_given h.1 h.2.1 h.2.2
  have hcomplete : (Json.readStream batch).isComplete = true := by decide +kernel
  have hcomplete' : (Json.readStream batchReversed).isComplete = true := by decide +kernel
  have hearly : (7 : Datestamp) < Datestamp.limit := by decide
  have hlate : (8 : Datestamp) < Datestamp.limit := by decide
  obtain ⟨report, report', s, s', hgo, hgo', -, -, ρ, κ, halike⟩ :=
    batches_converge reachable_bridge .free tenant request settings 3 1 (overtaking 4) .inOrder
      hearly hlate hcomplete hcomplete' hperm hunlike hids hids'
  obtain ⟨y, hle, hy, hy'⟩ := halike.survives "isbn" _ "x" hold
  have htwo : (Uuid.ofNat 2).toNat = 2 := Uuid.toNat_ofNat (by decide)
  exact ⟨report, report', s, s', ρ, κ, hgo, hgo', halike, y, hle.trans_eq htwo, hy, hy'⟩

end RecordLinkage
