import RecordLinkage.Proofs.Clustering.Merging
import RecordLinkage.Proofs.Ingest.Carrying

/-!
# Submissions that are carried out again

After a sequence of submissions the values of every set that was assigned are owned together. So
when the submissions are carried out again, each assignment finds one owner at most and no value
without an owner: the table of owners stays as it is, row by row, and so does what the next
assignment finds. Where nothing is removed, every key that is stored under has a record by then,
and the last payload of every key is stored already.

That nothing is merged is said of every way that leads from one world to another with the same
owners, and so of whatever the engine has done on its way.
-/

namespace RecordLinkage

open Clustering Work Tables

variable {i : Ingester} {s s' : World} {now : Datestamp} {config : String} {a : List Deed}
  {t t' : Tables} {r : RecordId} {key : RecordKey} {payload : Json} {values : List String}
  {submission : Submission} {submissions : List Submission}

/-! ## Values that are owned together -/

/-- One cluster owns all values of a set. -/
def Tables.Together (t : Tables) (config : String) (values : List String) : Prop :=
  ∃ x, ∀ v ∈ values, t.Owns config x v

theorem Tables.Together.congr (h : t.Together config values) (howners : t'.owners = t.owners) :
    t'.Together config values := by
  obtain ⟨x, hx⟩ := h
  refine ⟨x, fun v hv ↦ ?_⟩
  rw [Owns, howners]
  exact hx v hv

/-- After a history the values of each of its sets are owned together. -/
theorem Clustering.Tracks.together {H : List (RecordId × List String)} {s₀ : World}
    (h : Tracks config s₀ H s) {e : RecordId × List String} (he : e ∈ H) :
    s.tables.Together config e.2 := by
  have howned : ∀ v ∈ e.2, ∃ x, s.tables.Owns config x v :=
    fun v hv ↦ (h.owned v).mpr (Or.inr ⟨e, he, hv⟩)
  rcases e with ⟨r, - | ⟨u, rest⟩⟩
  · exact ⟨⟨Uuid.ofNat 0⟩, fun v hv ↦ absurd hv List.not_mem_nil⟩
  · obtain ⟨x, hx⟩ := howned u List.mem_cons_self
    refine ⟨x, fun v hv ↦ ?_⟩
    obtain ⟨y, hy⟩ := howned v hv
    have hlinked : Linked s₀.tables config H u v :=
      .single (Or.inr ⟨_, he, List.mem_cons_self, hv⟩)
    rwa [(h.linked hx hy).mpr hlinked]

theorem Carried.together (h : Carried i a s s') (hform : s.tables.Wellformed)
    (hn : ∀ config, Numbered config s) (hd : .store key payload ∈ a)
    (hvalues : values ∈ i.sets config payload) : s'.tables.Together config values := by
  obtain ⟨H, hcourse, hH⟩ := h.course config
  obtain ⟨e, he, rfl⟩ := (hH.sets values).mpr ⟨key, payload, hd, hvalues⟩
  exact (hcourse.tracks hform (hn config)).together he

/-! ## Assignments that change no owner -/

/-- The table of owners stays as it is. -/
def KeepsOwners (s s' : World) : Prop := s'.tables.owners = s.tables.owners

theorem lasting_keepsOwners : Lasting KeepsOwners where
  trans h h' := Eq.trans h' h
  idle htables _ := by rw [KeepsOwners, htables]

theorem Tables.merge_nil_owners (t : Tables) (config : String) (winner : ClusterId) :
    (t.merge config winner []).owners = t.owners := by
  have hstays : ∀ o : OwnerRow,
      { o with cluster := moved config winner [] o.config o.cluster } = o := by
    rintro ⟨c, v, x | text⟩
    · simp [moved]
    · rfl
  rw [merge_owners, List.map_congr_left fun o _ ↦ hstays o, List.map_id']

namespace Clustering

/-- With one owner at most there is nobody to take over from. -/
theorem gather_keepsOwners (now : Datestamp) (config : String) {found : Findings}
    (hone : found.owning.tail = []) : Respects KeepsOwners (gather now config found) := by
  have hL := lasting_keepsOwners
  rw [gather]
  rcases howning : found.owning with - | ⟨winner, losers⟩
  · refine .bind hL (.mint hL) fun _ ↦
      .bind hL (.statement hL fun s u t hst ↦ ?_) fun _ ↦ .pure hL _
    obtain ⟨-, -, rfl⟩ := createMark_ok_iff.mp hst
    rfl
  · rw [howning, List.tail_cons] at hone
    subst hone
    refine .bind hL (.change fun s ↦ rfl) fun _ ↦ .bind hL (.change fun s ↦ ?_) fun _ ↦ .pure hL _
    exact s.tables.merge_nil_owners config winner

theorem enter_keepsOwners (now : Datestamp) (r : RecordId) (config : String) {found : Findings}
    (hnone : found.unowned values = []) (a : Assignment) :
    Respects KeepsOwners (enter now r config values found a) := by
  have hL := lasting_keepsOwners
  rw [enter, hnone]
  refine .bind hL ?_ fun _ ↦ .bind hL (.pure hL _) fun _ ↦ .statement hL fun s u t hst ↦ ?_
  · rw [leave]
    split
    · split_ifs
      · exact .change fun s ↦ rfl
      · exact .pure hL ()
    · exact .pure hL ()
  · rcases setMember_ok_iff.mp hst with ⟨-, rfl⟩ | ⟨-, -, -, rfl⟩ <;> rfl

/-- **Assigning values that are owned together changes no owner.** -/
theorem owners_of_assign (hform : s.tables.Wellformed) (hvalues : s.tables.Together config values)
    (now : Datestamp) (r : RecordId) :
    KeepsOwners s ((assign now r config values).go s).2 := by
  obtain ⟨x, hx⟩ := hvalues
  obtain ⟨found, hsurvey, hfound⟩ := go_survey hform r config values
  have hone : found.owning.tail = [] := by
    have honly : ∀ y ∈ found.owning, y = x := by
      intro y hy
      obtain ⟨v, hv, hyv⟩ := hfound.mem_owning.mp hy
      exact hform.owns_unique hyv (hx v hv)
    have hlt := Findings.Agree.owning_pairwise found
    rcases howning : found.owning with - | ⟨y, - | ⟨z, rest⟩⟩
    · rfl
    · rfl
    · -- Two owners would be different, as they ascend.
      exfalso
      rw [howning] at hlt honly
      have hyz := (List.pairwise_cons.mp hlt).1 z List.mem_cons_self
      rw [honly y List.mem_cons_self,
        honly z (List.mem_cons_of_mem y List.mem_cons_self)] at hyz
      exact Nat.lt_irrefl _ (ClusterId.lt_iff_toNat.mp hyz)
  have hnone : found.unowned values = [] := by
    rw [List.eq_nil_iff_forall_not_mem]
    intro v hv
    obtain ⟨hmem, hno⟩ := hfound.mem_unowned.mp hv
    exact hno x (hx v hmem)
  have hL := lasting_keepsOwners
  rw [assign, go_bind, hsurvey]
  dsimp only
  rw [settle_eq]
  exact Respects.bind hL (gather_keepsOwners now config hone)
    (fun a ↦ .bind hL (enter_keepsOwners now r config hnone a) fun _ ↦ .pure hL a) s

end Clustering

namespace Ingester

/-- Every set of values that a payload is assigned with is owned together already. -/
def Known (i : Ingester) (t : Tables) (payload : Json) : Prop :=
  ∀ config, ∀ values ∈ i.sets config payload, t.Together config values

theorem owners_of_forM {keys : List (MatchKey × Method)} (hform : s.tables.Wellformed)
    (hknown : ∀ config, ∀ values ∈ setsUnder i.limit config payload keys,
      s.tables.Together config values)
    (hgo : (keys.forM (i.assignUnder now r payload)).go s = (.ok (), s')) : KeepsOwners s s' := by
  induction keys generalizing s with
  | nil =>
    obtain rfl := (Prod.mk.inj hgo).2
    exact lasting_keepsOwners.refl s
  | cons k rest ih =>
    obtain ⟨⟨⟩, s₁, hfirst, hrest⟩ := go_bind_ok.mp hgo
    obtain ⟨values, a, hvalues, hassign⟩ := assignUnder_ok_iff.mp hfirst
    have howners : KeepsOwners s s₁ := by
      have htogether : s.tables.Together k.1.id (truncate i.limit values) := by
        refine hknown k.1.id _ ?_
        rw [setsUnder, if_pos rfl, hvalues]
        exact List.mem_append_right _ (List.mem_singleton_self _)
      have hkeeps := owners_of_assign hform htogether now r
      rwa [hassign] at hkeeps
    have hform₁ := ((assign_keepsForm _ _ _ _).achieves hassign) hform
    refine lasting_keepsOwners.trans howners (ih hform₁ (fun c S hS ↦ ?_) hrest)
    -- Sets are still owned together for the keys that follow, as no owner has changed.
    exact (hknown c S (List.mem_append_left _ hS)).congr howners

/-- **A submission whose sets are known changes no owner.** -/
theorem owners_of_ingest (ho : s.Orderly)
    (hids : ((i.ingest now submission).go s).2.ids.next < idLimit)
    (hknown : ∀ key payload, i.deed? s.tables submission = some (.store key payload) →
      i.Known s.tables payload) : KeepsOwners s ((i.ingest now submission).go s).2 := by
  rcases hdeed : i.deed? s.tables submission with - | ⟨key, payload⟩ | key
  · obtain ⟨f, s', hgo, htables, -⟩ := ingest_of_deed?_none ho.form hdeed
    rw [hgo, KeepsOwners, htables]
  · obtain ⟨localId, outcome, s', rfl, hgo, hstore⟩ := ingest_of_deed?_store ho hids hdeed
    obtain ⟨_, _, r, s₁, henroll, -, hassign, -⟩ := store_ok hstore
    obtain ⟨t, -, rfl, hst⟩ := enroll_ok henroll
    obtain ⟨-, howners, -, -⟩ := storeRecord_frame hst
    rw [hgo]
    refine Eq.trans (owners_of_forM (ho.form.storeRecord hst) ?_ hassign) howners
    exact fun c S hS ↦ (hknown _ payload hdeed c S hS).congr howners
  · rw [ingest_of_deed?_remove hdeed]
    rfl

/-- **Submissions whose sets are known change no owner.** -/
theorem owners_of_carry (ho : s.Orderly)
    (hids : (i.carry now submissions s).2.ids.next < idLimit)
    (hknown : ∀ key payload, .store key payload ∈ i.deeds s.tables submissions →
      i.Known s.tables payload) : KeepsOwners s (i.carry now submissions s).2 := by
  induction submissions generalizing s with
  | nil => exact lasting_keepsOwners.refl s
  | cons submission rest ih =>
    rw [carry_cons] at hids ⊢
    have hids₁ := (i.carry_grows now rest _).trans_lt hids
    obtain ⟨-, hdealt⟩ := ingest_dealt ho hids₁
    simp only [deeds_cons, List.mem_append, Option.mem_toList] at hknown
    have howners := owners_of_ingest ho hids₁ fun key payload hdeed ↦
      hknown key payload (Or.inl hdeed)
    refine lasting_keepsOwners.trans howners (ih hdealt.orderly hids fun key payload hd c S hS ↦ ?_)
    -- What was known is known still, as owners have not changed.
    rw [deeds_congr hdealt.matchKeys] at hd
    exact (hknown key payload (Or.inr hd) c S hS).congr howners

end Ingester

/-! ## Nothing is merged -/

/-- One world leads to another, and no assignment on any way between them merges clusters. -/
def MergesNothing (s s' : World) : Prop :=
  ∀ config, Leads config s s' ∧ ∀ {s₁ s₂ : World} {now : Datestamp} {r : RecordId}
    {values : List String} {a : Assignment}, Leads config s s₁ → now < Datestamp.limit →
    (assign now r config values).go s₁ = (.ok a, s₂) → Leads config s₂ s' → a.merged = []

/-- **Where the owners are the same in the end, nothing was merged on the way.** A value whose owner
was merged would have an owner with a lesser identifier from then on. -/
theorem Leads.merged_eq_nil {s₁ s₂ : World} {a : Assignment} (hs : s.tables.Sound)
    (howns : ∀ x v, s'.tables.Owns config x v → s.tables.Owns config x v)
    (hbefore : Leads config s s₁) (hnow : now < Datestamp.limit)
    (hgo : (assign now r config values).go s₁ = (.ok a, s₂)) (hafter : Leads config s₂ s') :
    a.merged = [] := by
  rw [List.eq_nil_iff_forall_not_mem]
  intro x hx
  obtain ⟨hs₁, hcoarsens⟩ := hbefore.coarsens hs
  have hs₂ := ((assign_keepsSound hnow _ _ _) hgo).2 hs₁
  have ha := assigned_of_ok hs₁.form hgo
  obtain ⟨htouched, hne⟩ := (mem_merged_iff hs₁.form hgo).mp hx
  obtain ⟨v, -, hv⟩ := id htouched
  have hwon : s₂.tables.Owns config a.cluster v :=
    (ha.owns _ v).mpr (Or.inr ⟨x, hv, Or.inl ⟨htouched, rfl⟩⟩)
  have hle : a.cluster.toNat ≤ x.toNat := (ha.winner x htouched).2
  have hlt : a.cluster.toNat < x.toNat :=
    lt_of_le_of_ne hle fun heq ↦ hne (ClusterId.toNat_injective heq.symm)
  -- The owner in the end is not above the winner, and it was the owner all the time.
  obtain ⟨y, hya, hy⟩ := (hafter.coarsens hs₂).2.gathered a.cluster
  obtain ⟨z, hzy, hz⟩ := hcoarsens.gathered y
  obtain rfl := hs₁.form.owns_unique hv (hz v (howns y v (hy v hwon)))
  omega

theorem Ingester.ingest_leads (i : Ingester) (hnow : now < Datestamp.limit) (config : String)
    (submission : Submission) : Respects (Leads config) (i.ingest now submission) := by
  refine respects_ingest (lasting_leads config) (fun k _ r values s b s' hgo ↦ ?_)
    (fun localId payload s b s' hgo ↦ .single (.enroll hgo)) (fun localId ↦ ?_) submission
  · exact .single (.assign hnow hgo)
  · refine .bind (lasting_leads config) (.update fun s ↦ .single ?_) fun _ ↦
      (Respects.pure (lasting_leads config) _).achieves
    exact .delete _ hnow

/-! ## Orders in which each record has the same turns -/

/-- Deeds for other keys leave a row alone. -/
theorem settled_eq_filter (deeds : List Deed) (row : RecordRow) :
    settled deeds row = settled (deeds.filter (·.key = row.key)) row := by
  induction deeds generalizing row with
  | nil => rfl
  | cons d rest ih =>
    have hkey : (d.rewrite row).key = row.key := (settled_id_key [d] row).2
    have hrest : settled (d :: rest) row = settled (rest.filter (·.key = row.key)) (d.rewrite row) := by
      rw [← hkey, ← ih]
      rfl
    rw [hrest, List.filter_cons]
    split_ifs with hd
    · rfl
    · have hother : d.rewrite row = row := by
        rcases d with ⟨k, payload⟩ | k
        · exact if_neg fun h ↦ hd (decide_eq_true h.symm)
        · rfl
      rw [hother]

namespace Ingester

theorem lastSet?_eq_filter (i : Ingester) (config : String) (key : RecordKey)
    (deeds : List Deed) :
    i.lastSet? config key deeds = i.lastSet? config key (deeds.filter (·.key = key)) := by
  rw [lastSet?, lastSet?, List.foldl_filter]
  refine congrArg (fun f ↦ deeds.foldl f none) (funext fun last ↦ funext fun d ↦ ?_)
  by_cases hd : d.key = key
  · simp only [hd, decide_true, if_true]
  · rcases d with ⟨k, payload⟩ | k <;>
    · have hk : k ≠ key := hd
      simp [reassign, Deed.key, hk]

/-- The submissions that name one record come in the same order. -/
def SameTurns (i : Ingester) (order order' : List Submission) : Prop := ∀ localId : String,
  order.filter (fun a ↦ (i.localId a).toOption = some localId)
    = order'.filter fun a ↦ (i.localId a).toOption = some localId

/-- Where each record is named once at most, it has one turn in every order. -/
theorem SameTurns.of_unlike {order order' : List Submission} (hperm : order.Perm order')
    (hunlike : order.Pairwise i.Unlike) : i.SameTurns order order' := by
  intro localId
  have hfilter := hperm.filter fun a ↦ (i.localId a).toOption = some localId
  have hnamed : ∀ a ∈ order.filter fun a ↦ (i.localId a).toOption = some localId,
      i.localId a = .ok localId := by
    intro a ha
    have htoOption := of_decide_eq_true (List.mem_filter.mp ha).2
    rcases hlocal : i.localId a with f | other <;> rw [hlocal] at htoOption
    · cases htoOption
    · exact congrArg _ (Option.some.inj htoOption)
  have hpair := hunlike.filter fun a ↦ (i.localId a).toOption = some localId
  generalize order.filter (fun a ↦ (i.localId a).toOption = some localId) = turns at *
  rcases turns with - | ⟨a, - | ⟨b, rest⟩⟩
  · exact hfilter.nil_eq
  · exact hfilter.singleton_eq
  · obtain ⟨hother, -⟩ := List.pairwise_cons.mp hpair
    exact absurd (hnamed b (by simp)) (hother b (by simp) localId (hnamed a (by simp)))

/-- Then the deeds for one key come in the same order as well. -/
theorem SameTurns.deeds_filter {order order' : List Submission} (h : i.SameTurns order order')
    (t : Tables) (key : RecordKey) :
    (i.deeds t order).filter (·.key = key) = (i.deeds t order').filter (·.key = key) := by
  have hturns : ∀ submissions, (i.deeds t submissions).filter (·.key = key)
      = (submissions.filter fun a ↦ (i.localId a).toOption = some key.localId).filterMap
          fun a ↦ (i.deed? t a).filter (·.key = key) := by
    intro submissions
    rw [deeds, List.filter_filterMap, List.filterMap_filter]
    refine List.filterMap_congr fun a _ ↦ ?_
    rcases hd : i.deed? t a with - | d
    · simp
    · obtain ⟨localId, hlocal, hkey⟩ := key_of_deed? hd
      by_cases hsame : d.key = key
      · have hname : (i.localId a).toOption = some key.localId := by
          rw [hlocal, ← hsame, hkey]
          rfl
        simp [hname]
      · simp [hsame]
  rw [hturns, hturns, h]

end Ingester

/-! ## Where nothing is removed -/

namespace Ingester

/-- All deeds store under keys that have a record. -/
def Stocked (deeds : List Deed) (t : Tables) : Prop :=
  ∀ d ∈ deeds, ∃ key payload, d = .store key payload ∧ t.recordOf? key ≠ none

/-- What a submission does where every key has a record: the payload is written into it. -/
theorem ingest_of_stocked (ho : s.Orderly)
    (hids : ((i.ingest now submission).go s).2.ids.next < idLimit)
    (hstocked : Stocked (i.deed? s.tables submission).toList s.tables) :
    ((i.ingest now submission).go s).2.tables.records
        = s.tables.records.map (settled (i.deed? s.tables submission).toList) ∧
      (tallyOf ((i.ingest now submission).go s).1).2.2.1 = 0 := by
  obtain ⟨htally, -⟩ := ingest_dealt ho hids
  rw [htally, verdict]
  rcases hdeed : i.deed? s.tables submission with - | d
  · obtain ⟨f, s', hgo, htables, -⟩ := ingest_of_deed?_none ho.form hdeed
    rw [hgo, htables]
    exact ⟨(List.map_id _).symm, rfl⟩
  · rw [hdeed] at hstocked
    obtain ⟨key, payload, rfl, hfound⟩ := hstocked d (List.mem_singleton_self d)
    obtain ⟨localId, outcome, s', rfl, hgo, hstore⟩ := ingest_of_deed?_store ho hids hdeed
    obtain ⟨_, _, r, s₁, henroll, -, hassign, -⟩ := store_ok hstore
    obtain ⟨t, -, rfl, hst⟩ := enroll_ok henroll
    obtain ⟨-, hrecords, -⟩ :=
      i.assignAll_keepsRecords now r payload hassign (ho.form.storeRecord hst)
    rw [hgo, hrecords]
    rcases storeRecord_ok_iff.mp hst with ⟨row, hrow, -, rfl⟩ | ⟨hnone, -⟩
    · dsimp only
      rw [hrow]
      exact ⟨rfl, rfl⟩
    · exact absurd hnone hfound

/-- Keys do not lose their records as long as nothing is removed. -/
theorem Stocked.dealt {d : Option Deed} {deeds : List Deed} (hd : Dealt i d.toList s s')
    (h : Stocked (d.toList ++ deeds) s.tables) : Stocked deeds s'.tables := by
  intro e he
  obtain ⟨key, payload, rfl, hfound⟩ := h e (List.mem_append_right _ he)
  refine ⟨key, payload, rfl, ?_⟩
  by_cases hkey : ∃ d' ∈ d.toList, d'.key = key
  · obtain ⟨d', hd', rfl⟩ := hkey
    obtain ⟨k, p, rfl, -⟩ := h d' (List.mem_append_left _ hd')
    obtain ⟨q, hq, -⟩ := hd.stored k p hd'
    rw [Deed.key, hq]
    exact Option.some_ne_none _
  · rwa [hd.untouched key fun d' hd' heq ↦ hkey ⟨d', hd', heq⟩]

/-- **Payloads are written into the records that are there**, and nothing else happens to them. -/
theorem carry_of_stocked (ho : s.Orderly)
    (hids : (i.carry now submissions s).2.ids.next < idLimit)
    (hstocked : Stocked (i.deeds s.tables submissions) s.tables) :
    (i.carry now submissions s).2.tables.records
        = s.tables.records.map (settled (i.deeds s.tables submissions)) ∧
      (i.tally now submissions s).2.2.1 = 0 := by
  induction submissions generalizing s with
  | nil => exact ⟨(List.map_id _).symm, rfl⟩
  | cons submission rest ih =>
    rw [carry_cons] at hids
    have hids₁ := (i.carry_grows now rest _).trans_lt hids
    obtain ⟨-, hdealt⟩ := ingest_dealt ho hids₁
    rw [deeds_cons] at hstocked
    obtain ⟨hfirst, hnone⟩ :=
      ingest_of_stocked ho hids₁ fun d hd ↦ hstocked d (List.mem_append_left _ hd)
    have hlater := hstocked.dealt hdealt
    -- The deeds that follow are read off the match keys, which are as they were.
    rw [← deeds_congr hdealt.matchKeys] at hlater
    obtain ⟨hrest, hnone'⟩ := ih hdealt.orderly hids hlater
    rw [carry_cons, tally_cons, deeds_cons]
    constructor
    · rw [hrest, hfirst, deeds_congr hdealt.matchKeys, List.map_map]
      exact List.map_congr_left fun row _ ↦ (settled_append _ _ row).symm
    · rw [Prod.snd_add, Prod.snd_add, Prod.fst_add, hnone, hnone']

/-- What has a deed is inserted or updated, and what has none is ignored. -/
theorem tally_of_stores (ho : s.Orderly)
    (hids : (i.carry now submissions s).2.ids.next < idLimit)
    (hno : ∀ key, .remove key ∉ i.deeds s.tables submissions) :
    (i.tally now submissions s).2.1 + (i.deeds s.tables submissions).length
        = submissions.length ∧
      (i.tally now submissions s).2.2.1 + (i.tally now submissions s).2.2.2.1
        = (i.deeds s.tables submissions).length := by
  induction submissions generalizing s with
  | nil => exact ⟨rfl, rfl⟩
  | cons submission rest ih =>
    rw [carry_cons] at hids
    obtain ⟨hfirst, hdealt⟩ := ingest_dealt ho ((i.carry_grows now rest _).trans_lt hids)
    have hrest := ih hdealt.orderly hids
    rw [deeds_congr hdealt.matchKeys] at hrest
    simp only [deeds_cons, List.mem_append, not_or] at hno
    obtain ⟨hignored, hstored⟩ := hrest fun key ↦ (hno key).2
    rw [tally_cons, hfirst, deeds_cons, List.length_append, List.length_cons, verdict]
    simp only [Prod.snd_add, Prod.fst_add]
    rcases hdeed : i.deed? s.tables submission with - | ⟨key, payload⟩ | key
    · simp only [Outcome.tally, Option.toList_none, List.length_nil]
      omega
    · dsimp only
      split_ifs <;>
      · simp only [Outcome.tally, Option.toList_some, List.length_singleton]
        omega
    · rw [hdeed] at hno
      exact absurd (List.mem_singleton_self _) (hno key).1

end Ingester

end RecordLinkage
