import Mathlib.Logic.Relation
import RecordLinkage.Proofs.Clustering.References
import RecordLinkage.Proofs.History.Apart

/-!
# Merges are for good

A cluster that was merged into another one never comes back. It owns nothing and holds nobody, and
its mark stays as the merge has left it. What was owned together stays together, and the identifier
of the owner only ever decreases.

## Steps

Calls of the engine consist of many writes, and a moment may lie in the middle of one. So the results
are about `Step`s: an assignment that succeeds, a record that is stored, records that are deleted,
or a match key that is written, cleared or deleted, where the last two concern other match keys than
the one in question. `Leads` is a sequence of steps. Every call leads from the world before to the
world after, because what fails leaves no trace.

## Why nothing revives a cluster

Winners are clusters that own something, or clusters that are new; new means that they were not
marked before. A deserted cluster is marked and owns nothing, so it is neither. It is also never
marked as changed, since that happens only to clusters that own a value or hold a record.
-/

namespace RecordLinkage

open Clustering Work Tables Relation

variable {s s' : World} {config : String} {now : Datestamp} {r : RecordId} {values : List String}
  {a : Assignment} {x : ClusterId} {m : ClusterMark} {t : Tables}

/-! ## The clusters that are merged -/

/-- The clusters that an assignment says were merged are the owners of values that did not win. -/
theorem Clustering.mem_merged_iff (h : s.tables.Wellformed)
    (hgo : (assign now r config values).go s = (.ok a, s')) :
    x ∈ a.merged ↔ Touches s.tables config values x ∧ x ≠ a.cluster := by
  obtain ⟨found, s₁, hfound, hgather, -⟩ := exists_halves h hgo
  have hlt := Findings.Agree.owning_pairwise found
  rw [← hfound.mem_owning, eq_answer_of_gather hgather]
  generalize found.owning = owning at hlt ⊢
  rcases owning with - | ⟨winner, losers⟩
  · exact iff_of_false List.not_mem_nil fun hx ↦ List.not_mem_nil hx.1
  · -- The winner is less than all others, so it is not one of them.
    have hself : winner ∉ losers := by
      intro hw
      have hlt' := (List.pairwise_cons.mp hlt).1 winner hw
      exact Nat.lt_irrefl _ (ClusterId.lt_iff_toNat.mp hlt')
    rw [List.mem_cons]
    refine ⟨fun hx ↦ ⟨Or.inr hx, ?_⟩, fun hx ↦ hx.1.resolve_left hx.2⟩
    rintro rfl
    exact hself hx

/-! ## Steps -/

/-- Something happens while a match key is neither cleared nor deleted. -/
inductive Step (config : String) : World → World → Prop where
  | idle {s s' : World} (htables : s'.tables = s.tables) (hgrows : Grows s s') : Step config s s'
  | assign {s s' : World} {now : Datestamp} {r : RecordId} {c : String} {values : List String}
    {a : Assignment} (hnow : now < Datestamp.limit)
    (hgo : (Clustering.assign now r c values).go s = (.ok a, s')) : Step config s s'
  | enroll {s s' : World} {key : RecordKey} {payload : Json} {result : RecordId × Cell RecordId}
    (hgo : (Ingester.enroll key payload).go s = (.ok result, s')) : Step config s s'
  | delete {s : World} (fits : RecordRow → Bool) {now : Datestamp} (hnow : now < Datestamp.limit) :
    Step config s { s with tables := (s.tables.deleteRecords fits now).2 }
  | insertMatchKey {s : World} {k : MatchKey} {u : Unit} {t : Tables}
    (hst : Tables.insertMatchKey k s.tables = .ok (u, t)) : Step config s { s with tables := t }
  | updateMatchKey {s : World} (k : MatchKey) :
    Step config s { s with tables := (s.tables.updateMatchKey k).2 }
  | clear {s : World} {c : String} (hc : c ≠ config) :
    Step config s { s with tables := s.tables.clear c }
  | deleteMatchKey {s : World} {c : String} (hc : c ≠ config) :
    Step config s { s with tables := (s.tables.deleteMatchKey c).2 }

/-- One step after the other. -/
def Leads (config : String) : World → World → Prop := ReflTransGen (Step config)

theorem lasting_leads (config : String) : Lasting (Leads config) where
  trans h h' := ReflTransGen.trans h h'
  idle htables hgrows := .single (.idle htables hgrows)

/-- An operation neither clears nor deletes a match key. -/
def Operation.Retains (config : String) : Operation → Prop
  | deleteMatchKey c | clear c => c ≠ config
  | _ => True

open Operation in
/-- **Every operation that retains a match key is made of steps**, whether it succeeds or not. -/
theorem respects_leads {op : Operation} (hop : op.IsEngine)
    (hnow : ∀ now ∈ op.reading?, now < Datestamp.limit) (hkeep : op.Retains config)
    (access : Access) : Respects (Leads config) (op.work access) := by
  have hL := lasting_leads config
  have henroll : ∀ key payload, Achieves (Leads config) (Ingester.enroll key payload) :=
    fun key payload s b s' hgo ↦ .single (.enroll hgo)
  cases op with
  | insertMatchKey k =>
    have hinsert : Achieves (Leads config) (statement (Tables.insertMatchKey k)) := by
      intro s b s' hgo
      obtain ⟨t, hst, rfl⟩ := go_statement_ok.mp hgo
      exact .single (.insertMatchKey hst)
    exact hinsert.transaction hL (grows_statement _) access
  | updateMatchKey k =>
    have hupdate : Achieves (Leads config) (update (·.updateMatchKey k)) :=
      .update fun s ↦ .single (.updateMatchKey k)
    exact respects_transaction_quietly hL hupdate (grows_statement _) access
  | deleteMatchKey c =>
    have hdelete : Achieves (Leads config) (update (·.deleteMatchKey c)) :=
      .update fun s ↦ .single (.deleteMatchKey hkeep)
    exact respects_transaction_quietly hL hdelete (grows_statement _) access
  | clear c =>
    have hclear : Achieves (Leads config) (change (·.clear c)) :=
      Respects.achieves fun s ↦ .single (.clear hkeep)
    exact hclear.transaction hL (grows_change _) access
  | storeRecord key payload =>
    exact respects_transaction_quietly hL (henroll key payload)
      (Ingester.enroll_grows key payload) access
  | deleteRecord | deleteSource | assign | rebuild | ingest =>
    refine respects_timed hL (by trivial) (by rfl) ?_ henroll ?_ access
    · intro c _ r values s b s' hgo
      exact .single (.assign (hnow _ rfl) hgo)
    · intro α f fits hf
      refine .update fun s ↦ .single ?_
      rw [hf]
      exact .delete fits (hnow _ rfl)
  | start | advance | merge | insertValue | setMember => exact hop.elim

theorem run_leads {calls : List Call} (hcalls : ∀ call ∈ calls, call.op.IsEngine ∧
    (∀ now ∈ call.op.reading?, now < Datestamp.limit) ∧ call.op.Retains config) (s : World) :
    Leads config s (run s calls) := by
  induction calls generalizing s with
  | nil => exact .refl
  | cons call rest ih =>
    obtain ⟨hop, hnow, hkeep⟩ := hcalls call List.mem_cons_self
    have hfirst : Leads config s (call.perform s) := respects_leads hop hnow hkeep call.access s
    exact hfirst.trans (ih (fun call hcall ↦ hcalls call (List.mem_cons_of_mem _ hcall)) _)

/-! ## What one step keeps -/

/-- A cluster has nothing left but its mark. -/
structure Tables.Deserted (t : Tables) (m : ClusterMark) : Prop where
  marked : m ∈ t.marks
  owns : ∀ c v, ¬t.Owns c m.cluster v
  holds : ∀ c q, ¬t.Holds c m.cluster q

/-- Clusters are only ever taken over as a whole, by older ones, and deserted ones stay that way. -/
structure Tables.Coarsens (config : String) (t t' : Tables) : Prop where
  gathered : ∀ x, ∃ y, y.toNat ≤ x.toNat ∧ ∀ v, t.Owns config x v → t'.Owns config y v
  deserted : ∀ m, m.config = config → t.Deserted m → t'.Deserted m

namespace Tables.Coarsens

variable {t' t'' : Tables}

theorem refl (t : Tables) : t.Coarsens config t where
  gathered x := ⟨x, Nat.le_refl _, fun _ ↦ id⟩
  deserted _ _ h := h

theorem trans (h : t.Coarsens config t') (h' : t'.Coarsens config t'') :
    t.Coarsens config t'' where
  gathered x := by
    obtain ⟨y, hyx, hy⟩ := h.gathered x
    obtain ⟨z, hzy, hz⟩ := h'.gathered y
    exact ⟨z, hzy.trans hyx, fun v hv ↦ hz v (hy v hv)⟩
  deserted m hm hd := h'.deserted m hm (h.deserted m hm hd)

/-- Owners stay, and marks and members at most go, but not the marks of the match key. -/
theorem of_owners (howners : ∀ c x v, t'.Owns c x v → t.Owns c x v)
    (hkept : ∀ x v, t.Owns config x v → t'.Owns config x v)
    (hmembers : ∀ c x q, t'.Holds c x q → t.Holds c x q)
    (hmarks : ∀ m ∈ t.marks, m.config = config → t.Deserted m → m ∈ t'.marks) :
    t.Coarsens config t' where
  gathered x := ⟨x, Nat.le_refl _, hkept x⟩
  deserted m hm hd := ⟨hmarks m hd.marked hm hd, fun c v hv ↦ hd.owns c v (howners c _ v hv),
    fun c q hq ↦ hd.holds c q (hmembers c _ q hq)⟩

theorem of_frame (hmarks : t'.marks = t.marks) (howners : t'.owners = t.owners)
    (hmembers : t'.members = t.members) : t.Coarsens config t' := by
  apply of_owners
  · intro c x v hx
    rwa [Owns, howners] at hx
  · intro x v hx
    rwa [Owns, howners]
  · intro c x q hx
    rwa [Holds, hmembers] at hx
  · intro m hm _ _
    rwa [hmarks]

end Tables.Coarsens

/-- A deserted cluster is neither touched nor the winner. -/
theorem Clustering.Assigned.ne_winner_of_deserted {c : String}
    (ha : Assigned now r c values a s s') (hd : s.tables.Deserted m) :
    ¬Touches s.tables c values m.cluster ∧ m.cluster ≠ a.cluster := by
  have ht : ¬Touches s.tables c values m.cluster := by
    rintro ⟨v, -, hv⟩
    exact hd.owns c v hv
  refine ⟨ht, ?_⟩
  intro heq
  obtain ⟨_, _, -, ⟨-, hwinner⟩ | ⟨-, -, hfresh⟩, -⟩ := ha.marks
  · exact ht (heq ▸ hwinner)
  · exact hfresh m hd.marked heq

theorem Clustering.Assigned.deserted {c : String} (ha : Assigned now r c values a s s')
    (hd : s.tables.Deserted m) : s'.tables.Deserted m := by
  obtain ⟨ht, hne⟩ := ha.ne_winner_of_deserted hd
  refine ⟨?_, ?_, ?_⟩
  · obtain ⟨changed, new, hchanged, -, hmarks⟩ := ha.marks
    have hstays : ¬changed m.cluster = true := by
      rw [hchanged]
      rintro (hx | ⟨hx, -⟩)
      · exact ht hx
      · exact hd.holds c r hx
    rw [hmarks]
    refine List.mem_append_left _ (List.mem_map.mpr ⟨m, hd.marked, ?_⟩)
    rw [advanced, if_neg hstays]
  · intro c' v hv
    by_cases hc : c' = c
    · subst hc
      exact hd.owns c' v ((ha.owns_untouched ht hne v).mp hv)
    · exact hd.owns c' v ((ha.owns_other c' _ v hc).mp hv)
  · intro c' q hq
    by_cases hc : c' = c
    · subst hc
      exact hd.holds c' q ((ha.holds_untouched ht hne q).mp hq).2
    · exact hd.holds c' q ((ha.holds_other c' _ q hc).mp hq)

theorem Clustering.Assigned.coarsens {c : String} (ha : Assigned now r c values a s s') :
    s.tables.Coarsens config s'.tables where
  gathered x := by
    by_cases hc : c = config
    · subst hc
      by_cases ht : Touches s.tables c values x
      · exact ⟨a.cluster, (ha.winner x ht).2,
          fun v hv ↦ (ha.owns _ v).mpr (Or.inr ⟨x, hv, Or.inl ⟨ht, rfl⟩⟩)⟩
      · exact ⟨x, Nat.le_refl _,
          fun v hv ↦ (ha.owns x v).mpr (Or.inr ⟨x, hv, Or.inr ⟨ht, rfl⟩⟩)⟩
    · exact ⟨x, Nat.le_refl _, fun v hv ↦ (ha.owns_other config x v (Ne.symm hc)).mpr hv⟩
  deserted m _ hd := ha.deserted hd

theorem Tables.coarsens_deleteRecords (h : t.Wellformed) (fits : RecordRow → Bool)
    (now : Datestamp) : t.Coarsens config (t.deleteRecords fits now).2 := by
  have hmembers : ∀ c x q, (t.deleteRecords fits now).2.Holds c x q → t.Holds c x q :=
    fun c x q hq ↦ (h.holds_deleteRecords.mp hq).1
  refine .of_owners (fun c x v ↦ id) (fun x v ↦ id) hmembers ?_
  intro m hm _ hd
  -- A deserted cluster has no member, so it has none that is deleted.
  have hstays : ¬t.holdsRecord fits m.cluster = true := by
    intro hholds
    obtain ⟨⟨q, c, cell⟩, hq, hfits⟩ := List.any_eq_true.mp hholds
    rw [Bool.and_eq_true, decide_eq_true_iff] at hfits
    obtain rfl : cell = .intact m.cluster := hfits.1
    exact hd.holds c q hq
  refine List.mem_map.mpr ⟨m, hm, ?_⟩
  exact if_neg hstays

theorem Tables.coarsens_clear {c : String} (hc : c ≠ config) : t.Coarsens config (t.clear c) := by
  refine .of_owners (fun c' x v hx ↦ List.mem_of_mem_filter hx)
    (fun x v ↦ (owns_clear hc x v).mpr) (fun c' x q hx ↦ List.mem_of_mem_filter hx) ?_
  intro m hm hmc _
  refine List.mem_filter.mpr ⟨hm, ?_⟩
  rw [hmc]
  exact decide_eq_true hc.symm

/-! ## Whole runs -/

namespace Step

theorem sound (h : Step config s s') (hs : s.tables.Sound) : s'.tables.Sound := by
  cases h with
  | idle htables _ => exact htables ▸ hs
  | assign hnow hgo => exact ((assign_keepsSound hnow _ _ _) hgo).2 hs
  | enroll hgo => exact ((enroll_keepsSound _ _) hgo).2 hs
  | delete fits hnow => exact hs.deleteRecords fits hnow
  | insertMatchKey hst =>
    have hform := hs.form.insertMatchKey hst
    obtain ⟨-, rfl⟩ := insertMatchKey_ok_iff.mp hst
    exact hs.of_frame hform rfl rfl rfl
  | updateMatchKey k => exact hs.of_frame (hs.form.updateMatchKey k) rfl rfl rfl
  | clear hc => exact hs.clear (hs.form.clear _) rfl rfl rfl
  | deleteMatchKey hc => exact hs.clear (hs.form.deleteMatchKey _) rfl rfl rfl

theorem keepsOrder (h : Step config s s') : KeepsOrder s s' := by
  have hframe : ∀ {t : Tables}, t.Wellformed → (∀ m ∈ t.marks, m ∈ s.tables.marks) →
      t.records = s.tables.records → s.Orderly → ({ s with tables := t } : World).Orderly := by
    intro t hform hmarks hrecords ho
    refine ho.of_tables hform (fun m hm ↦ ⟨m, hmarks m hm, rfl⟩) fun q hq ↦ ?_
    rwa [Stores, ← hrecords]
  cases h with
  | idle htables hgrows => exact lasting_keepsOrder.idle htables hgrows
  | assign _ hgo => exact (assign_keepsOrder _ _ _ _) hgo
  | enroll hgo => exact (Ingester.enroll_keepsOrder _ _) hgo
  | delete fits _ => exact ⟨Nat.le_refl _, fun _ ho ↦ ho.deleteRecords fits _⟩
  | insertMatchKey hst =>
    refine ⟨Nat.le_refl _, fun _ ho ↦ hframe (ho.form.insertMatchKey hst) ?_ ?_ ho⟩
    · obtain ⟨-, rfl⟩ := insertMatchKey_ok_iff.mp hst
      exact fun _ ↦ id
    · obtain ⟨-, rfl⟩ := insertMatchKey_ok_iff.mp hst
      rfl
  | updateMatchKey k =>
    exact ⟨Nat.le_refl _, fun _ ho ↦ hframe (ho.form.updateMatchKey k) (fun _ ↦ id) rfl ho⟩
  | clear hc =>
    refine ⟨Nat.le_refl _, fun _ ho ↦ hframe (ho.form.clear _) (fun m ↦ ?_) rfl ho⟩
    exact List.mem_of_mem_filter
  | deleteMatchKey hc =>
    refine ⟨Nat.le_refl _, fun _ ho ↦ hframe (ho.form.deleteMatchKey _) (fun m ↦ ?_) rfl ho⟩
    exact List.mem_of_mem_filter

theorem coarsens (h : Step config s s') (hform : s.tables.Wellformed) :
    s.tables.Coarsens config s'.tables := by
  cases h with
  | idle htables _ => exact htables ▸ .refl _
  | assign hnow hgo => exact (assigned_of_ok hform hgo).coarsens
  | enroll hgo =>
    obtain ⟨t, -, rfl, hst⟩ := Ingester.enroll_ok hgo
    obtain ⟨hmarks, howners, hmembers, -⟩ := Ingester.storeRecord_frame hst
    exact .of_frame hmarks howners hmembers
  | delete fits hnow => exact coarsens_deleteRecords hform fits _
  | insertMatchKey hst =>
    obtain ⟨-, rfl⟩ := insertMatchKey_ok_iff.mp hst
    exact .of_frame rfl rfl rfl
  | updateMatchKey k => exact .of_frame rfl rfl rfl
  | clear hc => exact coarsens_clear hc
  | deleteMatchKey hc => exact (coarsens_clear hc).trans (.of_frame rfl rfl rfl)

end Step

theorem Leads.keepsOrder (h : Leads config s s') : KeepsOrder s s' := by
  induction h with
  | refl => exact lasting_keepsOrder.refl s
  | tail _ hstep ih => exact lasting_keepsOrder.trans ih hstep.keepsOrder

/-- **Along a run clusters only coarsen.** -/
theorem Leads.coarsens (h : Leads config s s') (hs : s.tables.Sound) :
    s'.tables.Sound ∧ s.tables.Coarsens config s'.tables := by
  induction h with
  | refl => exact ⟨hs, .refl _⟩
  | tail _ hstep ih =>
    obtain ⟨hs', hcoarsens⟩ := ih
    exact ⟨hstep.sound hs', hcoarsens.trans (hstep.coarsens hs'.form)⟩

/-- A cluster that has been merged has lost everything but its mark, which was advanced. -/
theorem exists_deserted_of_merged (hs : s.tables.Sound) (hnow : now < Datestamp.limit)
    (hgo : (Clustering.assign now r config values).go s = (.ok a, s')) (hx : x ∈ a.merged) :
    ∃ m ∈ s.tables.marks, m.cluster = x ∧ m.config = config ∧
      s'.tables.Deserted ⟨x, config, m.datestamp.advance now⟩ := by
  obtain ⟨ht, hne⟩ := (mem_merged_iff hs.form hgo).mp hx
  have ha := assigned_of_ok hs.form hgo
  have hs' : s'.tables.Sound := ((assign_keepsSound hnow _ _ _) hgo).2 hs
  obtain ⟨v, -, hv⟩ := id ht
  obtain ⟨m, hm, rfl, rfl⟩ := hs.owner_marked config x v hv
  obtain ⟨changed, new, hchanged, -, hmarks⟩ := ha.marks
  have hmark : (⟨m.cluster, m.config, m.datestamp.advance now⟩ : ClusterMark) ∈
      s'.tables.marks := by
    rw [hmarks]
    refine List.mem_append_left _ (List.mem_map.mpr ⟨m, hm, ?_⟩)
    rw [advanced, if_pos ((hchanged _).mpr (Or.inl ht))]
  -- Whatever names the cluster is about the match key of its mark.
  have hconfig : ∀ c, s'.tables.Marked c m.cluster → c = m.config :=
    fun c hc ↦ hs'.config_unique hc ⟨_, hmark, rfl, rfl⟩
  refine ⟨m, hm, rfl, rfl, hmark, ?_, ?_⟩
  · intro c w hw
    obtain rfl := hconfig c (hs'.owner_marked c _ w hw)
    rcases (ha.owns _ w).mp hw with ⟨heq, -⟩ | ⟨y, -, ⟨-, heq⟩ | ⟨hno, heq⟩⟩
    · exact hne heq
    · exact hne heq
    · exact hno (heq ▸ ht)
  · intro c q hq
    obtain rfl := hconfig c (hs'.member_marked c _ q hq)
    rcases (ha.holds _ q).mp hq with ⟨-, heq⟩ | ⟨-, y, -, ⟨-, heq⟩ | ⟨hno, heq⟩⟩
    · exact hne heq
    · exact hne heq
    · exact hno (heq ▸ ht)

/-- **Merges are irreversible.** From a world that the engine leads to, every run that neither
clears nor deletes a match key is made of steps. From one moment of it to any later one, a value
that is owned stays owned, by a cluster whose identifier is not greater, and values that are owned
together stay together. A cluster that an assignment has merged owns nothing and holds nobody at any
later moment, and its mark stays the same: the datestamp has not gone back, and can be read unless
there is no next 64-bit number. -/
theorem merges_irreversible (h : Reachable s) :
    (∀ w (calls : List Call), (∀ call ∈ calls, call.op.IsEngine ∧
        (∀ now ∈ call.op.reading?, now < Datestamp.limit) ∧ call.op.Retains config) →
      Leads config w (run w calls)) ∧
    ∀ s₁, Leads config s s₁ →
      (∀ s₂, Leads config s₁ s₂ →
        (∀ x v, s₁.tables.Owns config x v →
          ∃ y, s₂.tables.Owns config y v ∧ y.toNat ≤ x.toNat) ∧
        ∀ x v w, s₁.tables.Owns config x v → s₁.tables.Owns config x w →
          ∃ y, s₂.tables.Owns config y v ∧ s₂.tables.Owns config y w) ∧
      ∀ now r values a s₂, now < Datestamp.limit →
        (Clustering.assign now r config values).go s₁ = (.ok a, s₂) → ∀ x ∈ a.merged,
        ∃ m ∈ s₁.tables.marks, ∃ stamp, m.cluster = x ∧ m.config = config ∧
          m.datestamp ≤ stamp ∧ (m.datestamp + 1 < Datestamp.limit → stamp < Datestamp.limit) ∧
          ∀ s₃, Leads config s₂ s₃ → s₃.tables.Deserted ⟨x, config, stamp⟩ ∧
            s₃.tables.mark? x = (ClusterMark.read ⟨x, config, stamp⟩).map some := by
  refine ⟨fun w calls hcalls ↦ run_leads hcalls w, ?_⟩
  intro s₁ h₁
  obtain ⟨hs₁, -⟩ := h₁.coarsens h.sound
  constructor
  · intro s₂ h₂
    obtain ⟨-, hcoarsens⟩ := h₂.coarsens hs₁
    constructor
    · intro x v hv
      obtain ⟨y, hle, hy⟩ := hcoarsens.gathered x
      exact ⟨y, hy v hv, hle⟩
    · intro x v w hv hw
      obtain ⟨y, -, hy⟩ := hcoarsens.gathered x
      exact ⟨y, hy v hv, hy w hw⟩
  · intro now r values a s₂ hnow hgo x hx
    obtain ⟨m, hm, hmx, hmc, hdeserted⟩ := exists_deserted_of_merged hs₁ hnow hgo hx
    have hs₂ : s₂.tables.Sound := ((assign_keepsSound hnow _ _ _) hgo).2 hs₁
    have hle : m.datestamp ≤ m.datestamp.advance now :=
      Datestamp.le_advance (hs₁.stamp_le m hm) now
    have hlt : m.datestamp + 1 < Datestamp.limit → m.datestamp.advance now < Datestamp.limit :=
      fun hlt ↦ max_lt ((min_le_left _ _).trans_lt hlt) hnow
    refine ⟨m, hm, _, hmx, hmc, hle, hlt, ?_⟩
    intro s₃ h₃
    obtain ⟨hs₃, hcoarsens⟩ := h₃.coarsens hs₂
    have hlater := hcoarsens.deserted _ rfl hdeserted
    exact ⟨hlater, hs₃.form.mark?_eq hlater.marked⟩

namespace Sample

/-- All records are deleted, and one comes back with its value. -/
def comeback : List Call :=
  [⟨.free, .deleteSource library 7⟩, ⟨.free, .storeRecord (keyOf "b") .null⟩,
    ⟨.free, .assign 8 ⟨Uuid.ofNat 5⟩ "isbn" ["z"]⟩]

end Sample

open Sample in
/-- The cluster of the second record is merged into that of the first one, and is not revived when
the record comes back later. -/
theorem bridge_stays_merged : ∃ a s₂ stamp,
    (Clustering.assign 6 ⟨Uuid.ofNat 1⟩ "isbn" ["y", "z"]).go (run blank (bridge.take 7))
      = (.ok a, s₂) ∧ ⟨Uuid.ofNat 3⟩ ∈ a.merged ∧
    (run s₂ comeback).tables.Deserted ⟨⟨Uuid.ofNat 3⟩, "isbn", stamp⟩ ∧
    (run s₂ comeback).tables.mark? ⟨Uuid.ofNat 3⟩
      = (ClusterMark.read ⟨⟨Uuid.ofNat 3⟩, "isbn", stamp⟩).map some := by
  have hreachable : Reachable (run blank (bridge.take 7)) := by
    refine ⟨blank, bridge.take 7, rfl, rfl, ?_⟩
    simp [bridge, Operation.IsEngine, Operation.reading?, Datestamp.limit]
  have hok : ((Clustering.assign 6 ⟨Uuid.ofNat 1⟩ "isbn" ["y", "z"]).go
      (run blank (bridge.take 7))).1 = .ok ⟨⟨Uuid.ofNat 2⟩, false, [⟨Uuid.ofNat 3⟩]⟩ := by
    decide +kernel
  have hcalls : ∀ call ∈ comeback, call.op.IsEngine ∧
      (∀ now ∈ call.op.reading?, now < Datestamp.limit) ∧ call.op.Retains "isbn" := by
    simp [comeback, Operation.IsEngine, Operation.reading?, Operation.Retains, Datestamp.limit]
  obtain ⟨hleads, hmoments⟩ := merges_irreversible hreachable
  obtain ⟨-, hmerged⟩ := hmoments _ .refl
  obtain ⟨m, -, stamp, -, -, -, -, hlater⟩ :=
    hmerged 6 ⟨Uuid.ofNat 1⟩ ["y", "z"] _ _ (by decide) (Prod.ext hok rfl) _
      (List.mem_singleton_self _)
  obtain ⟨hdeserted, hmark⟩ := hlater _ (hleads _ comeback hcalls)
  exact ⟨_, _, stamp, Prod.ext hok rfl, List.mem_singleton_self _, hdeserted, hmark⟩

end RecordLinkage
