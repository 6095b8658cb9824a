import RecordLinkage.Proofs.Clustering.Merging
import RecordLinkage.Proofs.Clustering.Savepoints

/-!
# Lookups that are out of date

Between a lookup of owners and the transaction that relies on it, other writers may have done
anything. Whoever starts a cluster for the values that had no owner then may find that some of them
have one now. Values have one owner each, so the insertion of such a value is refused, and with it
the whole transaction: it is a conflict, and nothing of it is left. That is worth another attempt,
in which the owners are looked up again. The record then goes to the least of the clusters that own
some of its values, and no cluster is created.

Where no value is refused, none of them had an owner. Values that were seen to have one still do,
though it may be another cluster: clusters are merged, but as long as the match key is neither
cleared nor deleted no value is lost.
-/

namespace RecordLinkage

open Work Clustering Tables

variable {c : String} {x : ClusterId} {values vs : List String} {s : World} {now : Datestamp}

/-! ## Transactions that are given up when they fail -/

namespace Database

variable {α : Type} (d : Database) (w : Work α)

@[simp] theorem world_new (world : World) (handle : Handle) : (new world handle).world = world :=
  rfl

/-- Does work in a transaction, which is committed if the work succeeds and dropped otherwise. -/
def attempt (d : Database) (w : Work α) : Except Fault α × Database :=
  match d.begin with
  | (.error f, d) => (.error f, d)
  | (.ok _, d) =>
    match d.give true w with
    | (.ok a, d) => (.ok a, d.commit)
    | (.error f, d) => (.error f, d.rollback)

/-- An attempt is a transaction that sees what is committed, and leaves all of it or nothing. What
stands in the way of others is the same afterwards. -/
theorem attempt_eq (h : d.rollback.access.check = .ok ()) :
    (d.attempt w).1 = ((atomically w).go d.world).1 ∧
      (d.attempt w).2.world = ((atomically w).go d.world).2 ∧
      (d.attempt w).2.begun = none ∧ (d.attempt w).2.rollback.access = d.rollback.access := by
  have hgive : (d.within d.world).give true w
      = ((w.go d.world).1, d.within (w.go d.world).2) := rfl
  rw [attempt, begin_eq d h]
  dsimp only
  rw [hgive, go_atomically]
  rcases w.go d.world with ⟨f | a, s'⟩
  · exact ⟨rfl, rfl, rfl, rfl⟩
  · have hlocked : ((d.within s').commit.implicit.any Transaction.locked)
        = d.implicit.any Transaction.locked := by
      change (d.implicit.map _).any Transaction.locked = _
      rw [Option.any_map]
      rfl
    exact ⟨rfl, rfl, rfl, congrArg (fun b ↦ (⟨d.handle.readOnly, b || false⟩ : Access)) hlocked⟩

end Database

/-! ## Starting a cluster for values -/

namespace Clustering

/-- The values that had no owner when they were looked up. -/
def unseen (seen : List (String × ClusterId)) (values : List String) : List String :=
  values.filter fun v ↦ !seen.any fun o ↦ o.1 = v

/-- Starts a cluster that owns values, without looking up whether somebody else owns them. -/
def claim (now : Datestamp) (config : String) (cluster : ClusterId) (values : List String) :
    Work Unit := do
  Work.statement (Tables.createMark cluster config now)
  values.forM fun v ↦ Work.statement (Tables.insertValue config cluster v)

/-- What refuses a value that has an owner. -/
def alreadyOwned : Fault :=
  .duplicate "cluster_values.match_key_config_id, cluster_values.match_value"

theorem mem_unseen {seen : List (String × ClusterId)} {v : String} :
    v ∈ unseen seen values ↔ v ∈ values ∧ ∀ y, (v, y) ∉ seen := by
  simp only [unseen, List.mem_filter, Bool.not_eq_true', List.any_eq_false, decide_eq_true_eq]
  refine and_congr_right fun _ ↦ ⟨fun h y hy ↦ h _ hy rfl, ?_⟩
  rintro h ⟨_, y⟩ hy rfl
  exact h y hy

/-- **One value that is owned is enough** for an insertion to be refused, be it the first one or the
last. -/
theorem go_insertAll_of_taken (hkey : s.tables.hasMatchKey c = true) (hvs : vs.Nodup)
    (htaken : ∃ v ∈ vs, ∃ o ∈ s.tables.owners, o.key = (c, v)) :
    ∃ t, (vs.forM fun v ↦ Work.statement (Tables.insertValue c x v)).go s
      = (.error alreadyOwned, { s with tables := t }) := by
  induction vs generalizing s with
  | nil =>
    obtain ⟨v, hv, -⟩ := htaken
    exact absurd hv List.not_mem_nil
  | cons w rest ih =>
    obtain ⟨v, hv, htaken⟩ := htaken
    change ∃ t, (Work.statement (Tables.insertValue c x w) >>= fun _ ↦ rest.forM fun v ↦
      Work.statement (Tables.insertValue c x v)).go s = _
    rw [go_bind]
    by_cases hw : ∃ o ∈ s.tables.owners, o.key = (c, w)
    · have hrefused : Tables.insertValue c x w s.tables = .error alreadyOwned := by
        rw [Tables.insertValue, if_pos (ownerCell?_isSome_iff.mpr hw), alreadyOwned]
      rw [go_statement, hrefused]
      exact ⟨s.tables, rfl⟩
    · have hfree : ∀ o ∈ s.tables.owners, o.key ≠ (c, w) := fun o ho hkey ↦ hw ⟨o, ho, hkey⟩
      have hfirst : (Work.statement (Tables.insertValue c x w)).go s
          = (.ok (), inserted c x [w] s) :=
        go_statement_ok.mpr ⟨_, insertValue_ok_iff.mpr ⟨hfree, hkey, rfl⟩, rfl⟩
      have hv' : v ∈ rest := by
        refine (List.mem_cons.mp hv).resolve_left ?_
        rintro rfl
        exact hw htaken
      obtain ⟨o, ho, hov⟩ := htaken
      rw [hfirst]
      exact ih (s := inserted c x [w] s) hkey (List.nodup_cons.mp hvs).2
        ⟨v, hv', o, List.mem_append_left _ ho, hov⟩

/-- What a cluster that was just marked claims, if it can. -/
theorem go_claim (hkey : s.tables.hasMatchKey c = true)
    (hx : ∀ m ∈ s.tables.marks, m.cluster ≠ x) :
    (claim now c x vs).go s = (vs.forM fun v ↦ Work.statement (Tables.insertValue c x v)).go
      { s with tables := { s.tables with marks := s.tables.marks ++ [⟨x, c, now⟩] } } := by
  have hmark : (Work.statement (Tables.createMark x c now)).go s
      = (.ok (), { s with tables := { s.tables with marks := s.tables.marks ++ [⟨x, c, now⟩] } }) :=
    go_statement_ok.mpr ⟨_, createMark_ok_iff.mpr ⟨hx, hkey, rfl⟩, rfl⟩
  rw [claim, go_bind, hmark]

/-- What a cluster has claimed. -/
structure Claimed (config : String) (x : ClusterId) (vs : List String) (s s' : World) : Prop where
  owns : ∀ c y v, s'.tables.Owns c y v ↔ s.tables.Owns c y v ∨ c = config ∧ y = x ∧ v ∈ vs
  form : s'.tables.Wellformed

/-- **A claim conflicts if and only if one of the values is owned.** -/
theorem go_claim_cases (now : Datestamp) (h : s.tables.Wellformed)
    (hkey : s.tables.hasMatchKey c = true) (hvs : vs.Nodup) (hx : ∀ m ∈ s.tables.marks, m.cluster ≠ x) :
    (∃ v ∈ vs, ∃ y, s.tables.Owns c y v) ∧
      (∃ t, (claim now c x vs).go s = (.error alreadyOwned, { s with tables := t })) ∨
    (∀ v ∈ vs, ∀ y, ¬s.tables.Owns c y v) ∧
      ∃ s', (claim now c x vs).go s = (.ok (), s') ∧ Claimed c x vs s s' := by
  let marked : World :=
    { s with tables := { s.tables with marks := s.tables.marks ++ [⟨x, c, now⟩] } }
  have howned : ∀ v, (∃ o ∈ s.tables.owners, o.key = (c, v)) ↔ ∃ y, s.tables.Owns c y v := by
    intro v
    constructor
    · rintro ⟨⟨c', w, cell⟩, ho, hkey⟩
      obtain ⟨rfl, rfl⟩ := Prod.mk.inj hkey
      obtain ⟨y, rfl⟩ := h.owner_intact _ ho
      exact ⟨y, ho⟩
    · rintro ⟨y, hy⟩
      exact ⟨_, hy, rfl⟩
  rw [go_claim hkey hx]
  by_cases htaken : ∃ v ∈ vs, ∃ o ∈ s.tables.owners, o.key = (c, v)
  · refine Or.inl ⟨?_, go_insertAll_of_taken (s := marked) hkey hvs htaken⟩
    obtain ⟨v, hv, ho⟩ := htaken
    exact ⟨v, hv, (howned v).mp ho⟩
  · have hfree : ∀ v ∈ vs, ∀ o ∈ s.tables.owners, o.key ≠ (c, v) :=
      fun v hv o ho hk ↦ htaken ⟨v, hv, o, ho, hk⟩
    have hgo := go_insertAll (x := x) (s := marked) hkey hvs hfree
    refine Or.inr ⟨fun v hv y hy ↦ htaken ⟨v, hv, (howned v).mpr ⟨y, hy⟩⟩, _, hgo, ?_, ?_⟩
    · exact fun c' y v ↦ owns_inserted
    · have hclaim : (claim now c x vs).go s = _ := (go_claim hkey hx).trans hgo
      have hL := lasting_keepsForm
      refine Respects.achieves (.bind hL ?_ fun _ ↦ .forM hL _ fun v ↦ ?_) hclaim h
      · exact .statement hL fun s _ t hst h ↦ h.createMark hst
      · exact .statement hL fun s _ t hst h ↦ h.insertValue hst

end Clustering

/-! ## Two outcomes -/

/-- An attempt that was refused is worth another one. Nothing is left of it, and any record that is
assigned with the values in a transaction of its own goes to the least of their owners. -/
structure Database.Refused (d : Database) (c : String) (values : List String) (f : Fault)
    (d' : Database) : Prop where
  conflict : ∃ cause, f = .conflict cause
  retryable : f.isRetryable = true
  unchanged : d'.world = d.world
  dropped : d'.begun = none
  again : ∀ now r, d.world.tables.Stores r →
    ∃ a d'', d'.attempt (assign now r c values) = (.ok a, d'') ∧ a.created = false ∧
      Touches d.world.tables c values a.cluster ∧
      (∀ y, Touches d.world.tables c values y → a.cluster.toNat ≤ y.toNat) ∧
      (∀ v ∈ values, d''.world.tables.Owns c a.cluster v) ∧
      d''.world.tables.Holds c a.cluster r ∧ d''.begun = none

/-- An attempt that went through has only added to what is owned, and no value has two owners. -/
structure Database.Accepted (d : Database) (c : String) (x : ClusterId)
    (seen : List (String × ClusterId)) (values : List String) (d' : Database) : Prop where
  committed : d'.begun = none
  unowned : ∀ v ∈ unseen seen values, ∀ y, ¬d.world.tables.Owns c y v
  owns : ∀ c' y v, d'.world.tables.Owns c' y v ↔
    d.world.tables.Owns c' y v ∨ c' = c ∧ y = x ∧ v ∈ unseen seen values
  one_owner_before : ∀ c' y z v,
    d.world.tables.Owns c' y v → d.world.tables.Owns c' z v → y = z
  one_owner : ∀ c' y z v, d'.world.tables.Owns c' y v → d'.world.tables.Owns c' z v → y = z
  owned : ∀ v ∈ values, ∃ y, d'.world.tables.Owns c y v

/-! ## Attempts that rely on a lookup -/

namespace Database

variable {d : Database} {r : RecordId}

/-- Assigning a record in a transaction, where a cluster owns one of the values. -/
theorem exists_attempt_assign (h : d.world.tables.Wellformed)
    (haccess : d.rollback.access.check = .ok ()) (hkey : d.world.tables.hasMatchKey c = true)
    (hvalues : values.Nodup) (htouched : ∃ y, Touches d.world.tables c values y) (now : Datestamp)
    (hr : d.world.tables.Stores r) :
    ∃ a d', d.attempt (assign now r c values) = (.ok a, d') ∧ a.created = false ∧
      Touches d.world.tables c values a.cluster ∧
      (∀ y, Touches d.world.tables c values y → a.cluster.toNat ≤ y.toNat) ∧
      (∀ v ∈ values, d'.world.tables.Owns c a.cluster v) ∧
      d'.world.tables.Holds c a.cluster r ∧ d'.begun = none := by
  obtain ⟨y, hy⟩ := htouched
  obtain ⟨a, s', hgo⟩ := exists_assign_of now h hkey hr hvalues fun hno ↦ absurd hy (hno y)
  have ha := assigned_of_ok h hgo
  obtain ⟨hresult, hworld, hbegun, -⟩ := attempt_eq d (assign now r c values) haccess
  rw [go_atomically_ok.mpr hgo] at hresult hworld
  refine ⟨a, _, Prod.ext hresult rfl, ?_, (ha.winner y hy).1, fun z hz ↦ (ha.winner z hz).2, ?_, ?_,
    hbegun⟩
  · obtain ⟨found, s₁, hfound, hgather, -⟩ := exists_halves h hgo
    have hne : found.owning ≠ [] := List.ne_nil_of_mem (hfound.mem_owning.mpr hy)
    rw [eq_answer_of_gather hgather]
    rcases howning : found.owning with - | ⟨winner, losers⟩
    · exact absurd howning hne
    · rfl
  · intro v hv
    rw [hworld]
    exact (ha.owns _ v).mpr (Or.inl ⟨rfl, hv⟩)
  · rw [hworld]
    exact (ha.holds _ r).mpr (Or.inl ⟨rfl, rfl⟩)

end Database

/-- **Conflicts make it safe to rely on a lookup that is out of date.** Owners of values are looked
up in a world that the engine leads to, and any steps may follow that neither clear nor delete the
match key. In a transaction a cluster that is not marked yet is then started for the values that had
no owner. That conflicts if and only if one of them is owned by now, and no other fault is possible.
After a conflict the world is the same as before, and assigning any stored record with all of the
values, in a transaction of its own, joins it to the least of their owners. Without one, none of the
values had an owner, each value still has at most one, and nothing that was owned has changed hands.
Values that had an owner when they were looked up always have one, which is not younger. -/
theorem stale_lookup_safe {s s₁ : World} {d : Database} {seen : List (String × ClusterId)}
    (h : Reachable s) (h₁ : Leads c s s₁) (h₂ : Leads c s₁ d.world)
    (hseen : s₁.tables.lookup c values = .ok seen) (hvalues : values.Nodup)
    (hkey : d.world.tables.hasMatchKey c = true)
    (hx : ∀ m ∈ d.world.tables.marks, m.cluster ≠ x)
    (haccess : d.rollback.access.check = .ok ()) (now : Datestamp) :
    ∃ result d', d.attempt (claim now c x (unseen seen values)) = (result, d') ∧
      ((∃ cause, result = .error (.conflict cause)) ↔
        ∃ v ∈ values, (∀ y, (v, y) ∉ seen) ∧ ∃ y, d.world.tables.Owns c y v) ∧
      (∀ f, result = .error f → d.Refused c values f d') ∧
      (result = .ok () → d.Accepted c x seen values d') ∧
      ∀ v y, (v, y) ∈ seen → ∃ z, d.world.tables.Owns c z v ∧ z.toNat ≤ y.toNat := by
  obtain ⟨hs₁, -⟩ := h₁.coarsens h.sound
  obtain ⟨hs, hcoarsens⟩ := h₂.coarsens hs₁
  obtain ⟨found, hfound, hmem⟩ := lookup_ok hs₁.form c values
  obtain rfl := Except.ok.inj (hfound.symm.trans hseen)
  have hkept : ∀ v y, (v, y) ∈ found → ∃ z, d.world.tables.Owns c z v ∧ z.toNat ≤ y.toNat := by
    intro v y hy
    obtain ⟨z, hle, hz⟩ := hcoarsens.gathered y
    exact ⟨z, hz v ((hmem v y).mp hy).2, hle⟩
  have hunseen : (unseen found values).Nodup := hvalues.filter _
  obtain ⟨result, d', hattempt⟩ : ∃ result d',
      d.attempt (claim now c x (unseen found values)) = (result, d') := ⟨_, _, rfl⟩
  obtain ⟨hresult, hworld, hbegun, hsame⟩ := Database.attempt_eq d _ haccess
  rw [hattempt, go_atomically] at hresult hworld
  rw [hattempt] at hbegun hsame
  refine ⟨result, d', hattempt, ?_⟩
  rcases go_claim_cases now hs.form hkey hunseen hx with
    ⟨⟨v, hv, y, hy⟩, t, hgo⟩ | ⟨hfree, s', hgo, hclaimed⟩
  · rw [hgo] at hresult hworld
    dsimp only at hresult hworld
    subst hresult
    have hsameWorld : d'.world = d.world := hworld
    obtain ⟨hvalue, hno⟩ := mem_unseen.mp hv
    refine ⟨iff_of_true ⟨_, rfl⟩ ⟨v, hvalue, hno, y, hy⟩, ?_, ?_, hkept⟩
    · rintro f ⟨⟩
      refine ⟨⟨_, rfl⟩, rfl, hsameWorld, hbegun, fun now' r hr ↦ ?_⟩
      have hagain := Database.exists_attempt_assign (d := d') (c := c) (r := r)
        (hsameWorld ▸ hs.form) (hsame ▸ haccess) (hsameWorld ▸ hkey) hvalues
      rw [hsameWorld] at hagain
      exact hagain ⟨y, v, hvalue, hy⟩ now' hr
    · intro hok
      cases hok
  · rw [hgo] at hresult hworld
    dsimp only at hresult hworld
    subst hresult hworld
    refine ⟨iff_of_false ?_ ?_, ?_, fun _ ↦ ?_, hkept⟩
    · rintro ⟨cause, hcause⟩
      cases hcause
    · rintro ⟨v, hvalue, hno, y, hy⟩
      exact hfree v (mem_unseen.mpr ⟨hvalue, hno⟩) y hy
    · intro f hf
      cases hf
    · refine ⟨hbegun, hfree, hclaimed.owns, fun c' y z v ↦ hs.form.owns_unique,
        fun c' y z v ↦ hclaimed.form.owns_unique, fun v hv ↦ ?_⟩
      by_cases hlooked : ∃ y, (v, y) ∈ found
      · obtain ⟨y, hy⟩ := hlooked
        obtain ⟨z, hz, -⟩ := hkept v y hy
        exact ⟨z, (hclaimed.owns c z v).mpr (Or.inl hz)⟩
      · have hnew : v ∈ unseen found values := mem_unseen.mpr ⟨hv, not_exists.mp hlooked⟩
        exact ⟨x, (hclaimed.owns c x v).mpr (Or.inr ⟨rfl, rfl, hnew⟩)⟩

open Sample in
/-- Of the three values one had an owner when they were looked up, and another one has been assigned
since, to a cluster that has meanwhile been merged into that owner. The next attempt leads there. -/
theorem bridge_conflict : ∃ f d' a d'',
    (Database.new (run blank bridge) (.writing ⟨"t", accepts_t⟩ 10)).attempt
      (claim 7 "isbn" ⟨Uuid.ofNat 9⟩ (unseen [("x", ⟨Uuid.ofNat 2⟩)] ["w", "x", "z"]))
        = (.error f, d') ∧
    f.isRetryable = true ∧ d'.world = run blank bridge ∧
    d'.attempt (assign 8 ⟨Uuid.ofNat 1⟩ "isbn" ["w", "x", "z"]) = (.ok a, d'') ∧
    a.created = false ∧ d''.world.tables.Owns "isbn" a.cluster "w" := by
  have hreachable : Reachable (run blank (bridge.take 4)) := by
    refine ⟨blank, bridge.take 4, rfl, rfl, ?_⟩
    simp [bridge, Operation.IsEngine, Operation.reading?, Datestamp.limit]
  have hmeanwhile : ∀ call ∈ bridge.drop 4, call.op.IsEngine ∧
      (∀ now ∈ call.op.reading?, now < Datestamp.limit) ∧ call.op.Retains "isbn" := by
    simp [bridge, Operation.IsEngine, Operation.reading?, Operation.Retains, Datestamp.limit]
  have hleads : Leads "isbn" (run blank (bridge.take 4)) (run blank bridge) := by
    have hrun : run blank bridge = run (run blank (bridge.take 4)) (bridge.drop 4) := rfl
    rw [hrun]
    exact run_leads hmeanwhile _
  have hseen : (run blank (bridge.take 4)).tables.lookup "isbn" ["w", "x", "z"]
      = .ok [("x", ⟨Uuid.ofNat 2⟩)] := by
    decide +kernel
  have hr : (run blank bridge).tables.Stores ⟨Uuid.ofNat 1⟩ := stores_iff.mpr (by decide +kernel)
  have howned : (run blank bridge).tables.Owns "isbn" ⟨Uuid.ofNat 2⟩ "z" := by
    rw [Owns]
    decide +kernel
  obtain ⟨result, d', hattempt, hconflict, hrefused, -⟩ :=
    stale_lookup_safe (x := ⟨Uuid.ofNat 9⟩)
      (d := .new (run blank bridge) (.writing ⟨"t", accepts_t⟩ 10)) hreachable .refl hleads hseen
      (by decide) (by decide +kernel) (by decide +kernel) rfl 7
  obtain ⟨cause, rfl⟩ := hconflict.mpr ⟨"z", by decide, by simp, _, howned⟩
  have hagain := hrefused _ rfl
  obtain ⟨a, d'', hassign, hcreated, -, -, howns, -⟩ := hagain.again 8 ⟨Uuid.ofNat 1⟩ hr
  have hunchanged := hagain.unchanged.trans (Database.world_new _ _)
  exact ⟨_, d', a, d'', hattempt, hagain.retryable, hunchanged, hassign, hcreated,
    howns "w" (by decide)⟩

end RecordLinkage
