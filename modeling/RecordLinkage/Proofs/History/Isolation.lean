import RecordLinkage.Proofs.History.Sound
import RecordLinkage.Proofs.Ingest.Deed
import RecordLinkage.Proofs.Ingest.Setup

/-!
# Match keys do not affect one another

What is done under one match key leaves the rows of every other one as they are: owners, members and
marks, with their datestamps. For most statements this is plain, since they say which match key they
are about. The exception is that marks are advanced by cluster, whatever match key they belong to.
An assignment advances the clusters that it has found under its own match key, and in sound tables
none of these is marked under another one.

Rows are compared as lists, so not even their order changes.
-/

namespace RecordLinkage

open Clustering Work Tables

variable {s s' : World} {c d : String} {now : Datestamp} {t t' : Tables}

/-! ## The rows of a match key -/

namespace Tables

/-- The owners, members and marks of a match key. -/
def rowsOf (t : Tables) (d : String) : List OwnerRow × List MemberRow × List ClusterMark :=
  (t.owners.filter fun o ↦ o.config = d, t.members.filter fun m ↦ m.config = d,
    t.marks.filter fun m ↦ m.config = d)

/-- Which clusters are marked under a match key is said by its rows. -/
theorem marked_congr (h : t'.rowsOf d = t.rowsOf d) (x : ClusterId) :
    t'.Marked d x ↔ t.Marked d x := by
  have hmarks : t'.marks.filter (fun m ↦ m.config = d) = t.marks.filter fun m ↦ m.config = d :=
    congrArg (·.2.2) h
  have hmem : ∀ t : Tables, t.Marked d x ↔
      ∃ m ∈ t.marks.filter (fun m ↦ m.config = d), m.cluster = x := fun t ↦ by
    simp only [Marked, List.mem_filter, decide_eq_true_eq, and_assoc]
    exact exists_congr fun m ↦ and_congr_right fun _ ↦ and_comm
  rw [hmem, hmem, hmarks]

/-- Rows that are changed one by one are the same under a match key of which none is changed. -/
private theorem filter_map_eq {α : Type} {p : α → Bool} {f : α → α} {rows : List α}
    (hkeep : ∀ a ∈ rows, p (f a) = p a) (hsame : ∀ a ∈ rows, p a = true → f a = a) :
    (rows.map f).filter p = rows.filter p := by
  have hfilter : rows.filter (p ∘ f) = rows.filter p := List.filter_congr hkeep
  rw [List.filter_map, hfilter]
  conv_rhs => rw [← List.map_id (rows.filter p)]
  refine List.map_congr_left fun a ha ↦ ?_
  obtain ⟨ha, hp⟩ := List.mem_filter.mp ha
  exact hsame a ha hp

private theorem filter_concat_eq {α : Type} {p : α → Bool} (rows : List α) (a : α)
    (h : p a = false) : (rows ++ [a]).filter p = rows.filter p := by
  rw [List.filter_append, List.filter_singleton, h, Bool.cond_false, List.append_nil]

theorem rowsOf_ext
    (howners : t'.owners.filter (fun o ↦ o.config = d) = t.owners.filter fun o ↦ o.config = d)
    (hmembers : t'.members.filter (fun m ↦ m.config = d) = t.members.filter fun m ↦ m.config = d)
    (hmarks : t'.marks.filter (fun m ↦ m.config = d) = t.marks.filter fun m ↦ m.config = d) :
    t'.rowsOf d = t.rowsOf d := by
  rw [rowsOf, howners, hmembers, hmarks, rowsOf]

theorem rowsOf_advanceWhere {changed : ClusterId → Bool}
    (h : ∀ x, changed x = true → ¬t.Marked d x) :
    (t.advanceWhere changed now).rowsOf d = t.rowsOf d := by
  refine rowsOf_ext rfl rfl (filter_map_eq (fun m _ ↦ ?_) fun m hm hd ↦ ?_)
  · exact congrArg (fun c ↦ decide (c = d)) (advanced_config changed now m)
  · have hno : ¬changed m.cluster = true := by
      intro hx
      exact h _ hx ⟨m, hm, rfl, decide_eq_true_iff.mp hd⟩
    exact if_neg hno

section OtherMatchKey

variable (h : d ≠ c)

include h

theorem rowsOf_createMark {x : ClusterId} {u : Unit} (hok : createMark x c now t = .ok (u, t')) :
    t'.rowsOf d = t.rowsOf d := by
  obtain ⟨-, -, rfl⟩ := createMark_ok_iff.mp hok
  refine rowsOf_ext rfl rfl ?_
  exact filter_concat_eq t.marks ⟨x, c, now⟩ (decide_eq_false h.symm)

theorem rowsOf_merge (winner : ClusterId) (losers : List ClusterId) :
    (t.merge c winner losers).rowsOf d = t.rowsOf d := by
  have hstays : ∀ cell, moved c winner losers d cell = cell := by
    intro cell
    cases cell <;> simp [moved, h]
  apply rowsOf_ext
  · rw [merge_owners]
    refine filter_map_eq (fun o _ ↦ rfl) fun o _ hd ↦ ?_
    obtain rfl : o.config = d := decide_eq_true_iff.mp hd
    rw [hstays]
  · rw [merge_members]
    refine filter_map_eq (fun m _ ↦ rfl) fun m _ hd ↦ ?_
    obtain rfl : m.config = d := decide_eq_true_iff.mp hd
    rw [hstays]
  · rfl

theorem rowsOf_insertValue {x : ClusterId} {v : String} {u : Unit}
    (hok : insertValue c x v t = .ok (u, t')) : t'.rowsOf d = t.rowsOf d := by
  obtain ⟨-, -, rfl⟩ := insertValue_ok_iff.mp hok
  refine rowsOf_ext ?_ rfl rfl
  exact filter_concat_eq t.owners ⟨c, v, .intact x⟩ (decide_eq_false h.symm)

theorem rowsOf_setMember {x : ClusterId} {r : RecordId} {u : Unit}
    (hok : setMember r c x t = .ok (u, t')) : t'.rowsOf d = t.rowsOf d := by
  rcases setMember_ok_iff.mp hok with ⟨-, rfl⟩ | ⟨-, -, -, rfl⟩
  · refine rowsOf_ext rfl (filter_map_eq (fun m _ ↦ ?_) fun m _ hd ↦ ?_) rfl
    · exact congrArg (fun key ↦ decide (key.2 = d)) (placed_key r c x m)
    · obtain rfl : m.config = d := decide_eq_true_iff.mp hd
      rw [placed, if_neg (by simp [h])]
  · refine rowsOf_ext rfl ?_ rfl
    exact filter_concat_eq t.members ⟨r, c, .intact x⟩ (decide_eq_false h.symm)

theorem rowsOf_clear : (t.clear c).rowsOf d = t.rowsOf d := by
  have hkept : ∀ e : String, (decide (e = d) && decide (e ≠ c)) = decide (e = d) := by
    intro e
    by_cases he : e = d
    · simp [he, h]
    · simp [he]
  simp only [rowsOf, clear, List.filter_filter, hkept]

end OtherMatchKey

end Tables

/-! ## Assignments -/

/-- Where none of some clusters is marked under a match key, its rows stay. -/
def KeepsRows (d : String) (clusters : ClusterId → Prop) (s s' : World) : Prop :=
  (∀ x, clusters x → ¬s.tables.Marked d x) → s'.tables.rowsOf d = s.tables.rowsOf d

theorem lasting_keepsRows (d : String) (clusters : ClusterId → Prop) :
    Lasting (KeepsRows d clusters) where
  trans h h' hno := by
    have hrows := h hno
    exact (h' fun x hx hm ↦ hno x hx ((marked_congr hrows x).mp hm)).trans hrows
  idle htables _ _ := by rw [htables]

namespace Clustering

/-- The clusters that are found: the owners of values, and the one that the record may leave. -/
def Findings.Names (found : Findings) (x : ClusterId) : Prop :=
  x ∈ found.owning ∨ found.previous = some x

/-- Nothing but the clusters that are found is marked as changed, and everything else is said to be
about the match key. -/
theorem settle_keepsRows (hd : d ≠ c) (now : Datestamp) (r : RecordId) (values : List String)
    (found : Findings) : Respects (KeepsRows d found.Names) (settle now r c values found) := by
  have hL := lasting_keepsRows d found.Names
  rw [settle_eq]
  -- The former owners are joined, the old cluster is left, values and record are added.
  refine .bind hL ?_ fun a ↦ .bind hL (.bind hL ?_ fun _ ↦ .bind hL ?_ fun _ ↦ ?_) fun _ ↦
    .pure hL _
  · rw [gather]
    split
    · refine .bind hL (.mint hL) fun id ↦ .bind hL ?_ fun _ ↦ .pure hL _
      exact .statement hL fun s _ t hst _ ↦ rowsOf_createMark hd hst
    · next winner losers howning =>
      refine .bind hL (.change fun s hno ↦ ?_) fun _ ↦ .bind hL (.change fun s _ ↦ ?_) fun _ ↦
        .pure hL _
      · refine rowsOf_advanceWhere fun x hx ↦ hno x (Or.inl ?_)
        rw [howning]
        exact List.contains_iff_mem.mp hx
      · exact rowsOf_merge hd winner losers
  · rw [leave]
    split
    · next old hprevious =>
      split_ifs
      · refine .change fun s hno ↦ rowsOf_advanceWhere fun x hx ↦ hno x (Or.inr ?_)
        rw [List.mem_singleton.mp (List.contains_iff_mem.mp hx)]
        exact hprevious
      · exact .pure hL ()
    · exact .pure hL ()
  · refine .forM hL _ fun v ↦ .statement hL fun s _ t hst _ ↦ ?_
    exact rowsOf_insertValue hd hst
  · exact .statement hL fun s _ t hst _ ↦ rowsOf_setMember hd hst

/-- What is found in sound tables under one match key is not marked under another one. -/
theorem Findings.Agree.not_marked {found : Findings} {r : RecordId} {values : List String}
    (h : found.Agree t r c values) (hs : t.Sound) (hd : d ≠ c) {x : ClusterId}
    (hx : found.Names x) : ¬t.Marked d x := by
  intro hm
  rcases hx with hx | hx
  · obtain ⟨v, -, hv⟩ := h.mem_owning.mp hx
    exact hd (hs.config_unique hm (hs.owner_marked c x v hv))
  · exact hd (hs.config_unique hm (hs.member_marked c x r ((h.previous x).mp hx)))

/-- **An assignment leaves the rows of other match keys alone**, even if it fails halfway. -/
theorem rowsOf_assign (hs : s.tables.Sound) (hd : d ≠ c) (now : Datestamp) (r : RecordId)
    (values : List String) :
    ((assign now r c values).go s).2.tables.rowsOf d = s.tables.rowsOf d := by
  obtain ⟨found, hsurvey, hfound⟩ := go_survey hs.form r c values
  rw [assign, go_bind, hsurvey]
  exact settle_keepsRows hd now r values found s fun x hx ↦ hfound.not_marked hs hd hx

end Clustering

/-! ## Operations -/

/-- The match key that an operation is about. -/
def Operation.subject? : Operation → Option String
  | insertMatchKey k | updateMatchKey k => some k.id
  | deleteMatchKey c | clear c | assign _ _ c _ | rebuild _ c _ _ => some c
  | _ => none

/-- A match key keeps its rows. -/
def SameRows (d : String) (s s' : World) : Prop := s'.tables.rowsOf d = s.tables.rowsOf d

theorem lasting_sameRows (d : String) : Lasting (SameRows d) where
  trans h h' := h'.trans h
  idle htables _ := by rw [SameRows, htables]

/-- Sound tables stay sound, and a match key keeps its rows. -/
def Isolates (d : String) (s s' : World) : Prop :=
  KeepsSound s s' ∧ (s.tables.Sound → SameRows d s s')

theorem lasting_isolates (d : String) : Lasting (Isolates d) where
  trans h h' := by
    refine ⟨lasting_keepsSound.trans h.1 h'.1, fun hs ↦ ?_⟩
    exact (lasting_sameRows d).trans (h.2 hs) (h'.2 (h.1.2 hs))
  idle htables hg :=
    ⟨lasting_keepsSound.idle htables hg, fun _ ↦ (lasting_sameRows d).idle htables hg⟩

theorem assign_isolates (hd : d ≠ c) (hnow : now < Datestamp.limit) (r : RecordId)
    (values : List String) : Achieves (Isolates d) (Clustering.assign now r c values) := by
  intro s a s' hgo
  refine ⟨(assign_keepsSound hnow r c values) hgo, fun hs ↦ ?_⟩
  have hrows := rowsOf_assign hs hd now r values
  rwa [hgo] at hrows

theorem enroll_isolates (key : RecordKey) (payload : Json) :
    Achieves (Isolates d) (Ingester.enroll key payload) := by
  intro s result s' hgo
  refine ⟨(enroll_keepsSound key payload) hgo, fun _ ↦ ?_⟩
  obtain ⟨t, -, rfl, hst⟩ := Ingester.enroll_ok hgo
  obtain ⟨hmarks, howners, hmembers, -⟩ := Ingester.storeRecord_frame hst
  rw [SameRows, rowsOf, hmarks, howners, hmembers, rowsOf]

open Operation in
/-- An operation about one match key leaves the rows of the others alone. -/
theorem rowsOf_operation (hs : s.tables.Sound) {op : Operation} (hop : op.subject? = some c)
    (hnow : ∀ now ∈ op.reading?, now < Datestamp.limit) (hd : d ≠ c) (access : Access) :
    ((op.work access).go s).2.tables.rowsOf d = s.tables.rowsOf d := by
  have hL := lasting_sameRows d
  cases op with
  | insertMatchKey k =>
    have hinsert : Achieves (SameRows d) (statement (Tables.insertMatchKey k)) := by
      intro s a s' hgo
      obtain ⟨t, hst, rfl⟩ := go_statement_ok.mp hgo
      obtain ⟨-, rfl⟩ := insertMatchKey_ok_iff.mp hst
      rfl
    exact hinsert.transaction hL (grows_statement _) access s
  | updateMatchKey k =>
    have hupdate : Achieves (SameRows d) (update (·.updateMatchKey k)) := .update fun _ ↦ rfl
    exact respects_transaction_quietly hL hupdate (grows_statement _) access s
  | deleteMatchKey id =>
    obtain rfl := Option.some.inj hop
    have hdelete : Achieves (SameRows d) (update (·.deleteMatchKey id)) :=
      .update fun s ↦ rowsOf_clear hd
    exact respects_transaction_quietly hL hdelete (grows_statement _) access s
  | clear config =>
    obtain rfl := Option.some.inj hop
    have hclear : Achieves (SameRows d) (change (·.clear config)) :=
      Respects.achieves fun s ↦ rowsOf_clear hd
    exact hclear.transaction hL (grows_change _) access s
  | assign now r config values =>
    obtain rfl := Option.some.inj hop
    have hassign := assign_isolates hd (hnow _ rfl) r (Sorted.ofList values)
    exact (respects_transaction_quietly (lasting_isolates d) hassign (assign_grows _ _ _ _) access
      s).2 hs
  | rebuild handle config limit now =>
    obtain rfl := Option.some.inj hop
    have hassign : ∀ r values, Achieves (Isolates d) (Clustering.assign now r config values) :=
      fun r values ↦ assign_isolates hd (hnow _ rfl) r values
    have hrebuild := respects_rebuild (lasting_isolates d) hassign access handle limit
    exact (respects_quietly (lasting_isolates d) hrebuild s).2 hs
  | storeRecord | deleteRecord | deleteSource | ingest | start | advance | merge | insertValue
  | setMember => exact nomatch hop

/-! ## Submissions that store a record -/

/-- A submission that stores a record leaves the rows of match keys alone that are not computed. -/
theorem Ingester.rowsOf_ingest {i : Ingester} (hs : s.tables.Sound) (hd : d ∉ i.matchKeys)
    (hnow : now < Datestamp.limit) {submission : Submission} (hstore : submission.delete = false) :
    ((i.ingest now submission).go s).2.tables.rowsOf d = s.tables.rowsOf d := by
  rcases i.go_ingest now submission s with
    ⟨f, s', hgo, htables, -⟩ | ⟨localId, s₁, outcome, s', -, htables, -, hattempt, hgo⟩
  · rw [hgo, htables]
  · -- What matters is the attempt that succeeded, and it stores a record.
    rw [hgo, ← htables]
    obtain ⟨-, hact⟩ := Ingester.attempt_ok hattempt
    rw [act, hstore, if_neg Bool.false_ne_true] at hact
    split at hact
    · next payload _ =>
      have hkeys : ∀ k ∈ i.keys, ∀ r values,
          Achieves (Isolates d) (Clustering.assign now r k.1.id values) := by
        intro k hk r values
        have hne : d ≠ k.1.id := by
          rintro rfl
          exact hd (List.mem_map_of_mem hk)
        exact assign_isolates hne hnow r values
      have hachieves := achieves_store (lasting_isolates d) hkeys
        (enroll_isolates (i.key localId) payload)
      exact (hachieves hact).2 (htables ▸ hs)
    · cases (Prod.mk.inj hact).1

/-! ## Worlds that the engine leads to -/

/-- **Match keys are isolated from each other.** Whatever is done about one match key, and whether
it succeeds or not, every other match key keeps its owners, members and marks as they are. So does
every match key that is updated by hand only, while submissions store records: an ingester does not
know of match keys that are when it is set up. -/
theorem match_keys_isolated (h : Reachable s) :
    (∀ (op : Operation) c access, op.subject? = some c →
      (∀ now ∈ op.reading?, now < Datestamp.limit) → ∀ d, d ≠ c →
        ((op.work access).go s).2.tables.rowsOf d = s.tables.rowsOf d) ∧
    (∀ now r c values d, d ≠ c →
      ((Clustering.assign now r c values).go s).2.tables.rowsOf d = s.tables.rowsOf d) ∧
    ∀ s₀ access tenant request settings i s₁, Reachable s₀ →
      (Ingester.create access tenant request settings).go s₀ = (.ok i, s₁) →
      ∀ d, s₀.tables.Manual d → ∀ now submission, now < Datestamp.limit →
        submission.delete = false → ∀ access',
          (({ i with access := access' }.ingest now submission).go s).2.tables.rowsOf d
            = s.tables.rowsOf d := by
  have hs := h.sound
  refine ⟨?_, ?_, ?_⟩
  · intro op c access hop hnow d hd
    exact rowsOf_operation hs hop hnow hd access
  · intro now r c values d hd
    exact rowsOf_assign hs hd now r values
  · intro s₀ access tenant request settings i s₁ h₀ hcreate d hmanual now submission hnow hstore
      access'
    have hd : d ∉ i.matchKeys := by
      rw [Ingester.mem_matchKeys_iff hcreate]
      exact h₀.sound.form.not_automatic hmanual
    exact Ingester.rowsOf_ingest (i := { i with access := access' }) hs hd hnow hstore

namespace Sample

/-- A second match key, which is updated by hand only. -/
def issn : MatchKey := ⟨"issn", "jsonpath", .object [("expr", .string "$")], "manual"⟩

/-- One of the records that have been joined is assigned under the second match key as well. -/
def shelves : List Call :=
  bridge ++ [⟨.free, .insertMatchKey issn⟩, ⟨.free, .assign 7 ⟨Uuid.ofNat 0⟩ "issn" ["x"]⟩]

/-- An ingester of the library is set up. -/
def opened : Except Fault Ingester × World :=
  (Ingester.create .free ⟨"t", accepts_t⟩ ⟨library, 1, none⟩ ⟨1, 600, 1⟩).go (run blank shelves)

theorem reachable_shelves : Reachable (run blank shelves) := by
  refine ⟨blank, shelves, rfl, rfl, ?_⟩
  simp [shelves, bridge, Operation.IsEngine, Operation.reading?, Datestamp.limit]

end Sample

open Sample in
/-- The other record joins it under the second match key, and is then stored again. -/
theorem issn_leaves_isbn_alone :
    (run blank shelves).tables.rowsOf "isbn" ≠ ([], [], []) ∧
    ((Operation.work .free (.assign 8 ⟨Uuid.ofNat 1⟩ "issn" ["x", "y"])).go
      (run blank shelves)).2.tables.rowsOf "isbn" = (run blank shelves).tables.rowsOf "isbn" ∧
    ∃ i s₁, opened = (.ok i, s₁) ∧
      (({ i with access := .free }.ingest 8 (.store "b" (.array [.string "w"]))).go
        (run blank shelves)).2.tables.rowsOf "issn" = (run blank shelves).tables.rowsOf "issn" := by
  have hclock : (8 : Datestamp) < Datestamp.limit := by decide
  have hrows : (run blank shelves).tables.rowsOf "isbn" ≠ ([], [], []) := by decide +kernel
  have hmanual : (run blank shelves).tables.Manual "issn" := by
    have hrow : MatchKeyRow.ofMatchKey issn ∈ (run blank shelves).tables.matchKeys := by
      decide +kernel
    exact ⟨_, hrow, rfl, rfl⟩
  have hopened : opened.1.toOption.isSome = true := by decide +kernel
  obtain ⟨hoperations, -, hsubmissions⟩ := match_keys_isolated reachable_shelves
  have hassign := hoperations (.assign 8 ⟨Uuid.ofNat 1⟩ "issn" ["x", "y"]) "issn" .free rfl
    (fun now hnow ↦ Option.some.inj hnow ▸ hclock) "isbn" (by decide)
  rcases hgo : opened with ⟨f | i, s₁⟩
  · rw [hgo] at hopened
    exact nomatch hopened
  · exact ⟨hrows, hassign, i, s₁, rfl, hsubmissions _ _ _ _ _ i s₁ reachable_shelves hgo "issn"
      hmanual 8 _ hclock rfl .free⟩

end RecordLinkage
