import RecordLinkage.Proofs.Order
import RecordLinkage.Proofs.Store.Views
import RecordLinkage.Proofs.Work

/-!
# What one assignment does

An assignment looks up which clusters own some of the values, and then works its way through four
tables. What it amounts to is said here once: `Assigned` describes the world after it by the world
before, in terms of owners, members and marks. Nothing later looks at the statements again.

The clusters that own some of the values become one cluster, the winner. It takes over what they
own and whom they hold, and then the values and the record are added to it. Where no cluster owns
any of the values, the winner is a new one. A mark advances exactly when its cluster was among the
former owners, or is the one that the record leaves.
-/

namespace RecordLinkage.Clustering

open Tables

variable {now : Datestamp} {r : RecordId} {config : String} {values : List String}
  {a : Assignment} {s s' : World}

/-- A cluster owns one of the values. -/
def Touches (t : Tables) (config : String) (values : List String) (x : ClusterId) : Prop :=
  ∃ v ∈ values, t.Owns config x v

/-- **What an assignment achieves.** -/
structure Assigned (now : Datestamp) (r : RecordId) (config : String) (values : List String)
    (a : Assignment) (s s' : World) : Prop where
  stores : s.tables.Stores r
  hasMatchKey : s.tables.hasMatchKey config = true
  records : s'.tables.records = s.tables.records
  matchKeys : s'.tables.matchKeys = s.tables.matchKeys
  /-- The winner is the least of the former owners. -/
  winner : ∀ x, Touches s.tables config values x →
    Touches s.tables config values a.cluster ∧ a.cluster.toNat ≤ x.toNat
  /-- Without former owners it is a new cluster. -/
  minted : (∀ x, ¬Touches s.tables config values x) →
    a.cluster = ⟨Uuid.ofNat s.ids.next⟩ ∧ s'.ids.next = s.ids.next + 1
  ids_le : s.ids.next ≤ s'.ids.next
  owns : ∀ x v, s'.tables.Owns config x v ↔ x = a.cluster ∧ v ∈ values ∨
    ∃ y, s.tables.Owns config y v ∧ (Touches s.tables config values y ∧ x = a.cluster ∨
      ¬Touches s.tables config values y ∧ x = y)
  owns_other : ∀ c x v, c ≠ config → (s'.tables.Owns c x v ↔ s.tables.Owns c x v)
  holds : ∀ x q, s'.tables.Holds config x q ↔ q = r ∧ x = a.cluster ∨ q ≠ r ∧
    ∃ y, s.tables.Holds config y q ∧ (Touches s.tables config values y ∧ x = a.cluster ∨
      ¬Touches s.tables config values y ∧ x = y)
  holds_other : ∀ c x q, c ≠ config → (s'.tables.Holds c x q ↔ s.tables.Holds c x q)
  /-- The marks of the former owners and of the cluster that the record leaves advance, and a new
  cluster is marked. -/
  marks : ∃ changed : ClusterId → Bool, ∃ new : List ClusterMark,
    (∀ x, changed x = true ↔ Touches s.tables config values x ∨
      s.tables.Holds config x r ∧ x ≠ a.cluster) ∧
    (new = [] ∧ Touches s.tables config values a.cluster ∨
      new = [⟨a.cluster, config, now⟩] ∧ (∀ x, ¬Touches s.tables config values x) ∧
        ∀ m ∈ s.tables.marks, m.cluster ≠ a.cluster) ∧
    s'.tables.marks = s.tables.marks.map (advanced changed now) ++ new

/-! ## Findings -/

/-- The findings say what the tables say. -/
structure Findings.Agree (found : Findings) (t : Tables) (r : RecordId) (config : String)
    (values : List String) : Prop where
  owners : ∀ v x, (v, x) ∈ found.owners ↔ v ∈ values ∧ t.Owns config x v
  previous : ∀ x, found.previous = some x ↔ t.Holds config x r

private theorem mapM_read_eq (cells : List (String × Cell ClusterId))
    (h : ∀ p ∈ cells, ∃ x, p.2 = .intact x) :
    ∃ found : List (String × ClusterId),
      (cells.mapM fun (v, cell) ↦ cell.read.map fun id ↦ (v, id)) = Except.ok found ∧
        found.map (fun p ↦ (p.1, Cell.intact p.2)) = cells := by
  induction cells with
  | nil => exact ⟨[], rfl, rfl⟩
  | cons p rest ih =>
    obtain ⟨v, cell⟩ := p
    obtain ⟨x, rfl⟩ : ∃ x, cell = .intact x := h _ List.mem_cons_self
    obtain ⟨found, hfound, hmap⟩ := ih fun q hq ↦ h q (List.mem_cons_of_mem _ hq)
    refine ⟨(v, x) :: found, ?_, by rw [List.map_cons, hmap]⟩
    rw [List.mapM_cons, hfound]
    rfl

theorem lookup_ok {t : Tables} (h : t.Wellformed) (config : String) (values : List String) :
    ∃ found, t.lookup config values = .ok found ∧
      ∀ v x, (v, x) ∈ found ↔ v ∈ values ∧ t.Owns config x v := by
  have hcells : ∀ p : String × Cell ClusterId,
      p ∈ values.filterMap (fun v ↦ (t.ownerCell? config v).map fun cell ↦ (v, cell)) ↔
        p.1 ∈ values ∧ ∃ x, p.2 = .intact x ∧ t.Owns config x p.1 := by
    rintro ⟨v, cell⟩
    simp only [List.mem_filterMap, Option.map_eq_some_iff, h.ownerCell?_eq_some_iff]
    constructor
    · rintro ⟨_, hv, _, hx, heq⟩
      obtain ⟨rfl, rfl⟩ := Prod.mk.inj heq
      exact ⟨hv, hx⟩
    · rintro ⟨hv, hx⟩
      exact ⟨v, hv, cell, hx, rfl⟩
  obtain ⟨found, hfound, hmap⟩ := mapM_read_eq _ fun p hp ↦
    let ⟨x, hx, _⟩ := ((hcells p).mp hp).2
    ⟨x, hx⟩
  refine ⟨found, hfound, fun v x ↦ ?_⟩
  have hmem : (v, x) ∈ found ↔ (v, Cell.intact x) ∈ found.map fun p ↦ (p.1, Cell.intact p.2) := by
    simp only [List.mem_map, Prod.mk.injEq, Cell.intact.injEq, Prod.exists, exists_eq_right_right,
      exists_eq_right]
  rw [hmem, hmap, hcells]
  simp only [Cell.intact.injEq, exists_eq_left']

/-- Looking things up succeeds in well-formed tables, and changes nothing. -/
theorem go_survey (h : s.tables.Wellformed) (r : RecordId) (config : String)
    (values : List String) : ∃ found, (survey r config values).go s = (.ok found, s) ∧
      found.Agree s.tables r config values := by
  obtain ⟨owners, hlookup, howners⟩ := lookup_ok h config values
  obtain ⟨previous, hprevious⟩ : ∃ previous, s.tables.clusterOf? r config = .ok previous := by
    rw [clusterOf?]
    rcases hm : s.tables.member? r config with - | m
    · exact ⟨none, rfl⟩
    · obtain ⟨x, rfl, -⟩ := h.member?_eq_some_iff.mp hm
      exact ⟨some x, rfl⟩
  refine ⟨⟨owners, previous⟩, ?_, howners, h.clusterOf?_eq_ok_iff.mp hprevious⟩
  simp only [survey, Work.go_bind, Work.go_query, hlookup, hprevious, Work.go_pure]

namespace Findings.Agree

variable {found : Findings} {t : Tables}

theorem mem_owning (h : found.Agree t r config values) {x : ClusterId} :
    x ∈ found.owning ↔ Touches t config values x := by
  simp only [Findings.owning, Sorted.mem_ofList, List.mem_map, Prod.exists, exists_eq_right,
    h.owners, Touches]

theorem mem_unowned (h : found.Agree t r config values) {v : String} :
    v ∈ found.unowned values ↔ v ∈ values ∧ ∀ x, ¬t.Owns config x v := by
  simp only [Findings.unowned, List.mem_filter, Bool.not_eq_true', List.any_eq_false,
    decide_eq_true_eq, Prod.forall]
  refine and_congr_right fun hv ↦ ⟨fun hno x hx ↦ hno v x ((h.owners v x).mpr ⟨hv, hx⟩) rfl, ?_⟩
  rintro hno w x hw rfl
  exact hno x ((h.owners w x).mp hw).2

theorem owning_pairwise (found : Findings) : found.owning.Pairwise (· < ·) :=
  Sorted.pairwise_ofList _

end Findings.Agree

/-! ## Two halves -/

/-- The first half of an assignment: the former owners become one cluster. -/
def gather (now : Datestamp) (config : String) (found : Findings) : Work Assignment :=
  match found.owning with
  | [] => start now config
  | winner :: losers => join now config winner losers

/-- The cluster that the record leaves is marked, unless that has happened. -/
def leave (now : Datestamp) (found : Findings) (a : Assignment) : Work Unit :=
  match found.previous with
  | some old =>
    if old ≠ a.cluster && !found.owning.contains old then Work.change (·.advance [old] now)
    else pure ()
  | none => pure ()

/-- The second half: the record and its values are added to the winner. -/
def enter (now : Datestamp) (r : RecordId) (config : String) (values : List String)
    (found : Findings) (a : Assignment) : Work Unit := do
  leave now found a
  (found.unowned values).forM fun v ↦ Work.statement (Tables.insertValue config a.cluster v)
  Work.statement (Tables.setMember r config a.cluster)

theorem settle_eq (now : Datestamp) (r : RecordId) (config : String) (values : List String)
    (found : Findings) : settle now r config values found = do
      let a ← gather now config found
      enter now r config values found a
      return a := by
  rw [settle]
  rcases hprevious : found.previous with - | old <;>
    simp only [enter, leave, hprevious, gather, bind_assoc]
  · rcases found.owning <;> rfl
  · rcases found.owning <;>
    · refine bind_congr fun a ↦ ?_
      split_ifs <;> rfl

/-! ## Well-formed tables stay well formed -/

/-- Tables that are well formed stay well formed. -/
def KeepsForm (s s' : World) : Prop := s.tables.Wellformed → s'.tables.Wellformed

theorem lasting_keepsForm : Work.Lasting KeepsForm where
  trans h h' := h' ∘ h
  idle htables _ h := htables ▸ h

theorem gather_keepsForm (now : Datestamp) (config : String) (found : Findings) :
    Work.Respects KeepsForm (gather now config found) := by
  rw [gather]
  rcases found.owning with - | ⟨winner, losers⟩
  · refine .bind lasting_keepsForm (.mint lasting_keepsForm) fun id ↦ ?_
    refine .bind lasting_keepsForm ?_ fun _ ↦ .pure lasting_keepsForm _
    exact .statement lasting_keepsForm fun s _ t hst h ↦ h.createMark hst
  · refine .bind lasting_keepsForm ?_ fun _ ↦ ?_
    · exact .change fun s h ↦ h.advanceWhere _ now
    · refine .bind lasting_keepsForm ?_ fun _ ↦ .pure lasting_keepsForm _
      exact .change fun s h ↦ h.merge config winner losers

theorem enter_keepsForm (now : Datestamp) (r : RecordId) (config : String)
    (values : List String) (found : Findings) (a : Assignment) :
    Work.Respects KeepsForm (enter now r config values found a) := by
  refine .bind lasting_keepsForm ?_ fun _ ↦ .bind lasting_keepsForm ?_ fun _ ↦ ?_
  · rw [leave]
    split
    · split_ifs
      · exact .change fun s h ↦ h.advanceWhere _ now
      · exact .pure lasting_keepsForm ()
    · exact .pure lasting_keepsForm ()
  · refine .forM lasting_keepsForm _ fun v ↦ ?_
    exact .statement lasting_keepsForm fun s _ t hst h ↦ h.insertValue hst
  · exact .statement lasting_keepsForm fun s _ t hst h ↦ h.setMember hst

theorem assign_keepsForm (now : Datestamp) (r : RecordId) (config : String)
    (values : List String) : Work.Respects KeepsForm (assign now r config values) := by
  refine .bind lasting_keepsForm ?_ fun found ↦ ?_
  · refine .bind lasting_keepsForm (.query lasting_keepsForm _) fun _ ↦ ?_
    exact .bind lasting_keepsForm (.query lasting_keepsForm _) fun _ ↦ .pure lasting_keepsForm _
  · rw [settle_eq]
    refine .bind lasting_keepsForm (gather_keepsForm now config found) fun a ↦ ?_
    refine .bind lasting_keepsForm (enter_keepsForm now r config values found a) fun _ ↦ ?_
    exact .pure lasting_keepsForm _

/-! ## The winner -/

/-- What the first half achieves. -/
structure Gathered (now : Datestamp) (config : String) (owning : List ClusterId)
    (a : Assignment) (s s' : World) : Prop where
  records : s'.tables.records = s.tables.records
  matchKeys : s'.tables.matchKeys = s.tables.matchKeys
  ids_le : s.ids.next ≤ s'.ids.next
  winner : owning ≠ [] → a.cluster ∈ owning ∧ ∀ x ∈ owning, a.cluster.toNat ≤ x.toNat
  minted : owning = [] → a.cluster = ⟨Uuid.ofNat s.ids.next⟩ ∧ s'.ids.next = s.ids.next + 1
  owns : ∀ c x v, s'.tables.Owns c x v ↔
    ∃ y, s.tables.Owns c y v ∧ x = if c = config ∧ y ∈ owning then a.cluster else y
  holds : ∀ c x q, s'.tables.Holds c x q ↔
    ∃ y, s.tables.Holds c y q ∧ x = if c = config ∧ y ∈ owning then a.cluster else y
  marks : ∃ new : List ClusterMark,
    (new = [] ∧ owning ≠ [] ∨ new = [⟨a.cluster, config, now⟩] ∧ owning = [] ∧
      ∀ m ∈ s.tables.marks, m.cluster ≠ a.cluster) ∧
    s'.tables.marks = s.tables.marks.map (advanced (fun x ↦ owning.contains x) now) ++ new

private theorem map_advanced_none (marks : List ClusterMark) (now : Datestamp) :
    marks.map (advanced (fun _ ↦ false) now) = marks := by
  conv_rhs => rw [← List.map_id marks]
  exact List.map_congr_left fun m _ ↦ rfl

theorem advanceWhere_none (t : Tables) (now : Datestamp) :
    t.advanceWhere (fun _ ↦ false) now = t := by
  change { t with marks := t.marks.map (advanced (fun _ ↦ false) now) } = t
  rw [map_advanced_none]

private theorem gathered_start (hgo : (start now config).go s = (.ok a, s')) :
    Gathered now config [] a s s' := by
  obtain ⟨id, s₁, hmint, hgo⟩ := Work.go_bind_ok.mp hgo
  rw [Work.go_mint] at hmint
  obtain ⟨hid, rfl⟩ := Prod.mk.inj hmint
  obtain rfl := Except.ok.inj hid
  obtain ⟨u, s₂, hcreate, hgo⟩ := Work.go_bind_ok.mp hgo
  obtain ⟨ha, rfl⟩ := Prod.mk.inj hgo
  obtain rfl := Except.ok.inj ha
  obtain ⟨t, hst, rfl⟩ := Work.go_statement_ok.mp hcreate
  obtain ⟨hnew, -, rfl⟩ := createMark_ok_iff.mp hst
  have hsame : ∀ (c : String) (x y : ClusterId),
      (x = if c = config ∧ y ∈ ([] : List ClusterId) then ⟨Uuid.ofNat s.ids.next⟩ else y) ↔
        x = y := by
    intro c x y
    rw [if_neg (fun h ↦ List.not_mem_nil h.2)]
  exact {
    records := rfl
    matchKeys := rfl
    ids_le := Nat.le_succ _
    winner := fun h ↦ absurd rfl h
    minted := fun _ ↦ ⟨rfl, rfl⟩
    owns := fun c x v ↦ by simp only [hsame, exists_eq_right']; rfl
    holds := fun c x q ↦ by simp only [hsame, exists_eq_right']; rfl
    marks := ⟨_, Or.inr ⟨rfl, rfl, hnew⟩, by
      rw [show (fun x ↦ ([] : List ClusterId).contains x) = fun _ ↦ false from rfl,
        map_advanced_none]⟩ }

private theorem gathered_join {winner : ClusterId} {losers : List ClusterId}
    (hlt : (winner :: losers).Pairwise (· < ·))
    (hgo : (join now config winner losers).go s = (.ok a, s')) :
    Gathered now config (winner :: losers) a s s' := by
  simp only [join, Work.go_bind, Work.go_change, Work.go_pure, Prod.mk.injEq,
    Except.ok.injEq] at hgo
  obtain ⟨rfl, rfl⟩ := hgo
  -- The winner is not among the losers, but it stays where it is all the same.
  have hmoved : ∀ (c : String) (x y : ClusterId),
      (x = if c = config ∧ y ∈ losers then winner else y) ↔
        x = if c = config ∧ y ∈ winner :: losers then winner else y := by
    intro c x y
    by_cases hy : y = winner
    · simp [hy]
    · simp [hy]
  exact {
    records := rfl
    matchKeys := rfl
    ids_le := Nat.le_refl _
    winner := fun _ ↦ by
      refine ⟨List.mem_cons_self, fun x hx ↦ ?_⟩
      rcases List.mem_cons.mp hx with rfl | hx
      · exact Nat.le_refl _
      · exact Nat.le_of_lt (ClusterId.lt_iff_toNat.mp ((List.pairwise_cons.mp hlt).1 x hx))
    minted := fun h ↦ absurd h (List.cons_ne_nil _ _)
    owns := fun c x v ↦ by
      rw [owns_merge]
      exact exists_congr fun y ↦ and_congr_right fun _ ↦ hmoved c x y
    holds := fun c x q ↦ by
      rw [holds_merge]
      exact exists_congr fun y ↦ and_congr_right fun _ ↦ hmoved c x y
    marks := ⟨[], Or.inl ⟨rfl, List.cons_ne_nil _ _⟩, by rw [List.append_nil]; rfl⟩ }

theorem gather_ok {found : Findings} (hgo : (gather now config found).go s = (.ok a, s')) :
    Gathered now config found.owning a s s' := by
  have hlt := Findings.Agree.owning_pairwise found
  rw [gather] at hgo
  rcases howning : found.owning with - | ⟨winner, losers⟩
  · rw [howning] at hgo
    exact gathered_start hgo
  · rw [howning] at hgo hlt
    exact gathered_join hlt hgo

/-! ## The record and its values -/

private def isLeft (found : Findings) (a : Assignment) (x : ClusterId) : Bool :=
  found.previous = some x && x ≠ a.cluster && !found.owning.contains x

private theorem go_leave (now : Datestamp) (found : Findings) (a : Assignment) (s : World) :
    (leave now found a).go s
      = (.ok (), { s with tables := s.tables.advanceWhere (isLeft found a) now }) := by
  have hidle : (∀ x, isLeft found a x = false) →
      ({ s with tables := s.tables.advanceWhere (isLeft found a) now } : World) = s := by
    intro hleft
    rw [show isLeft found a = fun _ ↦ false from funext hleft, advanceWhere_none]
  rw [leave]
  rcases hprevious : found.previous with - | old
  · rw [hidle fun x ↦ by simp [isLeft, hprevious]]
    rfl
  · dsimp only
    split_ifs with hold
    · rw [Work.go_change, advance]
      congr 4
      funext x
      simp only [Bool.and_eq_true, decide_eq_true_eq] at hold
      by_cases hx : x = old
      · subst hx
        have hnot : x ∉ found.owning := by simpa using hold.2
        simp [isLeft, hprevious, hold.1, hnot]
      · simp [isLeft, hprevious, hx, Ne.symm hx]
    · rw [hidle]
      · rfl
      · intro x
        by_cases hx : x = old
        · subst hx
          simpa [isLeft, hprevious] using hold
        · simp [isLeft, hprevious, Ne.symm hx]

/-- The values that are inserted one by one. -/
def inserted (config : String) (x : ClusterId) (vs : List String) (s : World) : World :=
  { s with tables := { s.tables with
    owners := s.tables.owners ++ vs.map fun v ↦ ⟨config, v, .intact x⟩ } }

private theorem inserted_nil (config : String) (x : ClusterId) (s : World) :
    inserted config x [] s = s := by
  rw [inserted, List.map_nil, List.append_nil]

theorem inserted_cons (config : String) (x : ClusterId) (v : String) (vs : List String)
    (s : World) :
    inserted config x (v :: vs) s = inserted config x vs (inserted config x [v] s) := by
  simp only [inserted, List.map_cons, List.map_nil, List.append_assoc, List.singleton_append]

private theorem insertAll_ok {x : ClusterId} {vs : List String} {u : Unit}
    (hgo : (vs.forM fun v ↦ Work.statement (Tables.insertValue config x v)).go s = (.ok u, s')) :
    s' = inserted config x vs s := by
  induction vs generalizing s with
  | nil =>
    rw [inserted_nil]
    exact (Prod.mk.inj hgo).2.symm
  | cons v vs ih =>
    obtain ⟨_, s₁, hv, hgo⟩ := Work.go_bind_ok.mp hgo
    obtain ⟨t, hst, rfl⟩ := Work.go_statement_ok.mp hv
    obtain ⟨-, -, rfl⟩ := insertValue_ok_iff.mp hst
    rw [ih hgo, inserted_cons]
    rfl

/-- Values that nobody owns are inserted. -/
theorem go_insertAll {x : ClusterId} {vs : List String}
    (hkey : s.tables.hasMatchKey config = true) (hnodup : vs.Nodup)
    (hfree : ∀ v ∈ vs, ∀ o ∈ s.tables.owners, o.key ≠ (config, v)) :
    (vs.forM fun v ↦ Work.statement (Tables.insertValue config x v)).go s
      = (.ok (), inserted config x vs s) := by
  induction vs generalizing s with
  | nil =>
    rw [inserted_nil]
    rfl
  | cons v vs ih =>
    obtain ⟨hv, hnodup⟩ := List.nodup_cons.mp hnodup
    refine Work.go_bind_ok.mpr ⟨(), inserted config x [v] s, ?_, ?_⟩
    · exact Work.go_statement_ok.mpr ⟨_, insertValue_ok_iff.mpr
        ⟨hfree v List.mem_cons_self, hkey, rfl⟩, rfl⟩
    · rw [inserted_cons config x v vs]
      refine ih hkey hnodup fun w hw o ho ↦ ?_
      rcases List.mem_append.mp ho with ho | ho
      · exact hfree w (List.mem_cons_of_mem _ hw) o ho
      · rw [List.map_singleton, List.mem_singleton] at ho
        subst ho
        intro heq
        have hvw : v = w := (Prod.mk.inj heq).2
        exact hv (hvw ▸ hw)

theorem owns_inserted {c : String} {x y : ClusterId} {v : String} {vs : List String} :
    (inserted config x vs s).tables.Owns c y v ↔
      s.tables.Owns c y v ∨ c = config ∧ y = x ∧ v ∈ vs := by
  simp only [Owns, inserted, List.mem_append, List.mem_map, OwnerRow.mk.injEq, Cell.intact.injEq]
  refine or_congr_right ⟨?_, ?_⟩
  · rintro ⟨w, hw, rfl, rfl, rfl⟩
    exact ⟨rfl, rfl, hw⟩
  · rintro ⟨rfl, rfl, hv⟩
    exact ⟨v, hv, rfl, rfl, rfl⟩

/-- What the second half achieves. -/
structure Entered (now : Datestamp) (r : RecordId) (config : String) (values : List String)
    (found : Findings) (a : Assignment) (s s' : World) : Prop where
  stores : s.tables.Stores r
  hasMatchKey : s.tables.hasMatchKey config = true
  records : s'.tables.records = s.tables.records
  matchKeys : s'.tables.matchKeys = s.tables.matchKeys
  ids : s'.ids = s.ids
  owns : ∀ c x v, s'.tables.Owns c x v ↔ s.tables.Owns c x v ∨
    c = config ∧ x = a.cluster ∧ v ∈ found.unowned values
  holds : ∀ c x q, s'.tables.Holds c x q ↔
    if q = r ∧ c = config then x = a.cluster else s.tables.Holds c x q
  marks : s'.tables.marks = s.tables.marks.map (advanced (isLeft found a) now)

theorem enter_ok {found : Findings} {u : Unit} (h : s.tables.Wellformed)
    (hgo : (enter now r config values found a).go s = (.ok u, s')) :
    Entered now r config values found a s s' := by
  obtain ⟨_, s₁, hleave, hgo⟩ := Work.go_bind_ok.mp hgo
  rw [go_leave] at hleave
  obtain ⟨-, rfl⟩ := Prod.mk.inj hleave
  obtain ⟨_, s₂, hinsert, hgo⟩ := Work.go_bind_ok.mp hgo
  obtain rfl := insertAll_ok hinsert
  obtain ⟨t, hst, rfl⟩ := Work.go_statement_ok.mp hgo
  have hrest : t.records = s.tables.records ∧ t.matchKeys = s.tables.matchKeys ∧
      t.owners = (inserted config a.cluster (found.unowned values) s).tables.owners ∧
      t.marks = s.tables.marks.map (advanced (isLeft found a) now) := by
    rcases setMember_ok_iff.mp hst with ⟨-, rfl⟩ | ⟨-, -, -, rfl⟩ <;> exact ⟨rfl, rfl, rfl, rfl⟩
  obtain ⟨hrecords, hkeys, howners, hmarks⟩ := hrest
  -- A membership that is only changed shows that the record and the match key are there.
  have hneeds : s.tables.Stores r ∧ s.tables.hasMatchKey config = true := by
    rcases setMember_ok_iff.mp hst with ⟨⟨m, hm, hkey⟩, -⟩ | ⟨-, hkey, hr, -⟩
    · obtain ⟨rfl, rfl⟩ := Prod.mk.inj hkey
      exact ⟨h.member_record m hm, h.member_config m hm⟩
    · exact ⟨hr, hkey⟩
  exact {
    stores := hneeds.1
    hasMatchKey := hneeds.2
    records := hrecords
    matchKeys := hkeys
    ids := rfl
    owns := fun c x v ↦ by
      rw [← owns_inserted, Owns, howners]
      rfl
    holds := fun c x q ↦ by
      have h := holds_setMember (c := c) (x := x) (q := q) hst
      exact h
    marks := hmarks }

/-! ## Both halves -/

private theorem advanced_advanced {f g : ClusterId → Bool} (hfg : ∀ x, g x = true → f x = false)
    (now : Datestamp) (m : ClusterMark) :
    advanced g now (advanced f now m) = advanced (fun x ↦ f x || g x) now m := by
  by_cases hg : g m.cluster = true
  · simp only [advanced, hfg _ hg, hg, Bool.false_or, if_true, Bool.false_eq_true, if_false]
  · rw [Bool.not_eq_true] at hg
    by_cases hf : f m.cluster = true
    · simp only [advanced, hf, hg, Bool.or_false, if_true, Bool.false_eq_true, if_false]
    · rw [Bool.not_eq_true] at hf
      simp only [advanced, hf, hg, Bool.or_false, Bool.false_eq_true, if_false]

private theorem isLeft_iff {found : Findings} {x : ClusterId} : isLeft found a x = true ↔
    found.previous = some x ∧ x ≠ a.cluster ∧ x ∉ found.owning := by
  simp [isLeft, and_assoc]

section Halves

variable {found : Findings} {s₁ : World} (hfound : found.Agree s.tables r config values)
  (hg : Gathered now config found.owning a s s₁) (he : Entered now r config values found a s₁ s')

include hfound

/-- Clusters that are touched go into the winner, and the others stay. -/
private theorem goes_of_found (x y : ClusterId) :
    (x = if y ∈ found.owning then a.cluster else y) ↔
      Touches s.tables config values y ∧ x = a.cluster ∨
        ¬Touches s.tables config values y ∧ x = y := by
  have htouched : y ∈ found.owning ↔ Touches s.tables config values y := hfound.mem_owning
  by_cases ht : Touches s.tables config values y
  · simp [ht, htouched.mpr ht]
  · simp [ht, mt htouched.mp ht]

private theorem owning_eq_nil_iff :
    found.owning = [] ↔ ∀ x, ¬Touches s.tables config values x := by
  rw [List.eq_nil_iff_forall_not_mem]
  exact forall_congr' fun x ↦ not_congr hfound.mem_owning

include hg he

private theorem owns_of_halves (x : ClusterId) (v : String) : s'.tables.Owns config x v ↔
    x = a.cluster ∧ v ∈ values ∨ ∃ y, s.tables.Owns config y v ∧
      (Touches s.tables config values y ∧ x = a.cluster ∨
        ¬Touches s.tables config values y ∧ x = y) := by
  simp only [he.owns, hg.owns, goes_of_found hfound, true_and, hfound.mem_unowned]
  constructor
  · rintro (hy | ⟨rfl, hv, -⟩)
    · exact Or.inr hy
    · exact Or.inl ⟨rfl, hv⟩
  · rintro (⟨rfl, hv⟩ | hy)
    -- A value that was owned has come with its owner, any other was inserted.
    · by_cases howned : ∃ y, s.tables.Owns config y v
      · obtain ⟨y, hy⟩ := howned
        exact Or.inl ⟨y, hy, Or.inl ⟨⟨v, hv, hy⟩, rfl⟩⟩
      · exact Or.inr ⟨rfl, hv, fun y hy ↦ howned ⟨y, hy⟩⟩
    · exact Or.inl hy

private theorem marks_of_halves : ∃ changed : ClusterId → Bool, ∃ new : List ClusterMark,
    (∀ x, changed x = true ↔ Touches s.tables config values x ∨
      s.tables.Holds config x r ∧ x ≠ a.cluster) ∧
    (new = [] ∧ Touches s.tables config values a.cluster ∨
      new = [⟨a.cluster, config, now⟩] ∧ (∀ x, ¬Touches s.tables config values x) ∧
        ∀ m ∈ s.tables.marks, m.cluster ≠ a.cluster) ∧
    s'.tables.marks = s.tables.marks.map (advanced changed now) ++ new := by
  obtain ⟨new, hnew, hmarks⟩ := hg.marks
  refine ⟨fun x ↦ found.owning.contains x || isLeft found a x, new, fun x ↦ ?_, ?_, ?_⟩
  · rw [Bool.or_eq_true, List.contains_iff_mem, isLeft_iff, hfound.previous, hfound.mem_owning]
    by_cases ht : Touches s.tables config values x
    · simp only [ht, true_or]
    · simp only [ht, not_false_eq_true, and_true, false_or]
  · rcases hnew with ⟨rfl, hne⟩ | ⟨rfl, hnil, hfresh⟩
    · exact Or.inl ⟨rfl, hfound.mem_owning.mp (hg.winner hne).1⟩
    · exact Or.inr ⟨rfl, (owning_eq_nil_iff hfound).mp hnil, hfresh⟩
  · -- The second half advances the cluster that the record leaves, neither new nor touched.
    have hnewLeft : new.map (advanced (isLeft found a) now) = new := by
      rcases hnew with ⟨rfl, -⟩ | ⟨rfl, -, -⟩
      · rfl
      · have hstays : ¬isLeft found a a.cluster = true := fun h ↦ (isLeft_iff.mp h).2.1 rfl
        rw [List.map_singleton, advanced, if_neg hstays]
    rw [he.marks, hmarks, List.map_append, hnewLeft, List.map_map]
    congr 1
    refine List.map_congr_left fun m _ ↦ advanced_advanced (fun x hx ↦ ?_) now m
    simpa using (isLeft_iff.mp hx).2.2

private theorem assigned_of_halves : Assigned now r config values a s s' where
  stores := by
    have hstores := he.stores
    rwa [Stores, hg.records] at hstores
  hasMatchKey := by
    have hkey := he.hasMatchKey
    rwa [Tables.hasMatchKey, hg.matchKeys] at hkey
  records := he.records.trans hg.records
  matchKeys := he.matchKeys.trans hg.matchKeys
  ids_le := by
    rw [he.ids]
    exact hg.ids_le
  winner x hx := by
    have hx' := hfound.mem_owning.mpr hx
    obtain ⟨hw, hle⟩ := hg.winner (List.ne_nil_of_mem hx')
    exact ⟨hfound.mem_owning.mp hw, hle x hx'⟩
  minted hno := by
    rw [he.ids]
    exact hg.minted ((owning_eq_nil_iff hfound).mpr hno)
  owns := owns_of_halves hfound hg he
  owns_other c x v hc := by
    simp only [he.owns, hg.owns, hc, false_and, if_false, or_false, exists_eq_right']
  holds x q := by
    simp only [he.holds, hg.holds, goes_of_found hfound, and_true, true_and]
    by_cases hq : q = r
    · simp only [hq, if_true, true_and, ne_eq, not_true_eq_false, false_and, or_false]
    · simp only [hq, if_false, false_and, false_or, ne_eq, not_false_eq_true, true_and]
  holds_other c x q hc := by
    simp only [he.holds, hg.holds, hc, false_and, and_false, if_false, exists_eq_right']
  marks := marks_of_halves hfound hg he

end Halves

/-- An assignment that succeeds has gathered what it found and entered the record. -/
theorem exists_halves (h : s.tables.Wellformed)
    (hgo : (assign now r config values).go s = (.ok a, s')) :
    ∃ found s₁, found.Agree s.tables r config values ∧
      (gather now config found).go s = (.ok a, s₁) ∧
      (enter now r config values found a).go s₁ = (.ok (), s') := by
  obtain ⟨found, hsurvey, hfound⟩ := go_survey h r config values
  obtain ⟨_, _, hgo', hgo⟩ := Work.go_bind_ok.mp hgo
  rw [hsurvey] at hgo'
  obtain ⟨hf, rfl⟩ := Prod.mk.inj hgo'
  obtain rfl := Except.ok.inj hf
  rw [settle_eq] at hgo
  obtain ⟨a', s₁, hgather, hgo⟩ := Work.go_bind_ok.mp hgo
  obtain ⟨_, s₂, henter, hgo⟩ := Work.go_bind_ok.mp hgo
  obtain ⟨ha, rfl⟩ := Prod.mk.inj hgo
  obtain rfl := Except.ok.inj ha
  exact ⟨found, s₁, hfound, hgather, henter⟩

/-- **Every assignment that succeeds achieves what one is to achieve.** -/
theorem assigned_of_ok (h : s.tables.Wellformed)
    (hgo : (assign now r config values).go s = (.ok a, s')) :
    Assigned now r config values a s s' := by
  obtain ⟨found, s₁, hfound, hgather, henter⟩ := exists_halves h hgo
  have h₁ : s₁.tables.Wellformed := (gather_keepsForm now config found).achieves hgather h
  exact assigned_of_halves hfound (gather_ok hgather) (enter_ok h₁ henter)

/-- What is answered when the given clusters, ascending, own some of the values. -/
def answer (fresh : ClusterId) : List ClusterId → Assignment
  | [] => ⟨fresh, true, []⟩
  | winner :: losers => ⟨winner, false, losers⟩

theorem eq_answer_of_gather {found : Findings}
    (hgo : (gather now config found).go s = (.ok a, s')) :
    a = answer ⟨Uuid.ofNat s.ids.next⟩ found.owning := by
  rw [gather] at hgo
  rcases howning : found.owning with - | ⟨winner, losers⟩ <;> rw [howning] at hgo
  · obtain ⟨id, s₁, hmint, hgo⟩ := Work.go_bind_ok.mp hgo
    obtain rfl := Except.ok.inj (Prod.mk.inj hmint).1
    obtain ⟨_, s₂, -, hgo⟩ := Work.go_bind_ok.mp hgo
    exact (Except.ok.inj (Prod.mk.inj hgo).1).symm
  · obtain ⟨_, s₁, -, hgo⟩ := Work.go_bind_ok.mp hgo
    obtain ⟨_, s₂, -, hgo⟩ := Work.go_bind_ok.mp hgo
    exact (Except.ok.inj (Prod.mk.inj hgo).1).symm

namespace Assigned

variable {x : ClusterId}

private theorem goes_iff (ht : ¬Touches s.tables config values x) (hwinner : x ≠ a.cluster)
    (y : ClusterId) : (Touches s.tables config values y ∧ x = a.cluster ∨
      ¬Touches s.tables config values y ∧ x = y) ↔ x = y := by
  refine ⟨fun hg ↦ (hg.resolve_left fun hg ↦ hwinner hg.2).2, ?_⟩
  rintro rfl
  exact Or.inr ⟨ht, rfl⟩

/-- Any other cluster owns what it owned. -/
theorem owns_untouched (ha : Assigned now r config values a s s')
    (ht : ¬Touches s.tables config values x) (hwinner : x ≠ a.cluster) (v : String) :
    s'.tables.Owns config x v ↔ s.tables.Owns config x v := by
  rw [ha.owns]
  simp only [goes_iff ht hwinner, exists_eq_right']
  exact ⟨fun h ↦ h.resolve_left fun hw ↦ hwinner hw.1, Or.inr⟩

/-- Any other cluster holds the records that it held, except for the one that is assigned. -/
theorem holds_untouched (ha : Assigned now r config values a s s')
    (ht : ¬Touches s.tables config values x) (hwinner : x ≠ a.cluster) (q : RecordId) :
    s'.tables.Holds config x q ↔ q ≠ r ∧ s.tables.Holds config x q := by
  rw [ha.holds]
  simp only [goes_iff ht hwinner, exists_eq_right']
  exact ⟨fun h ↦ h.resolve_left fun hw ↦ hwinner hw.2, Or.inr⟩

/-- A cluster that is there and not touched is not the winner. -/
theorem ne_winner (ha : Assigned now r config values a s s') (hlt : s.ids.next < 2 ^ 128)
    (hx : x.toNat < s.ids.next) (ht : ¬Touches s.tables config values x) : x ≠ a.cluster := by
  rintro rfl
  by_cases hany : ∃ y, Touches s.tables config values y
  · obtain ⟨y, hy⟩ := hany
    exact ht (ha.winner y hy).1
  · have hnat : a.cluster.toNat = s.ids.next := by
      rw [(ha.minted fun y hy ↦ hany ⟨y, hy⟩).1]
      exact Uuid.toNat_ofNat hlt
    exact absurd hx (Nat.not_lt.mpr hnat.ge)

/-- The winner is a former owner, or it is the cluster that the supply had next. -/
theorem winner_cases (ha : Assigned now r config values a s s') (hlt : s.ids.next < 2 ^ 128) :
    Touches s.tables config values a.cluster ∨
      (∀ x, ¬Touches s.tables config values x) ∧ a.cluster.toNat = s.ids.next ∧
        s'.ids.next = s.ids.next + 1 := by
  by_cases hany : ∃ y, Touches s.tables config values y
  · obtain ⟨y, hy⟩ := hany
    exact Or.inl (ha.winner y hy).1
  · have hno : ∀ y, ¬Touches s.tables config values y := fun y hy ↦ hany ⟨y, hy⟩
    obtain ⟨hcluster, hnext⟩ := ha.minted hno
    refine Or.inr ⟨hno, ?_, hnext⟩
    rw [hcluster]
    exact Uuid.toNat_ofNat hlt

end Assigned

/-! ## When an assignment succeeds -/

private theorem exists_gather (now : Datestamp) (found : Findings)
    (hkey : s.tables.hasMatchKey config = true)
    (hfresh : found.owning = [] →
      ∀ m ∈ s.tables.marks, m.cluster ≠ ⟨Uuid.ofNat s.ids.next⟩) :
    ∃ a s', (gather now config found).go s = (.ok a, s') := by
  rw [gather]
  rcases howning : found.owning with - | ⟨winner, losers⟩
  · obtain ⟨t, hst⟩ : ∃ t, createMark ⟨Uuid.ofNat s.ids.next⟩ config now s.tables = .ok ((), t) :=
      ⟨_, createMark_ok_iff.mpr ⟨hfresh howning, hkey, rfl⟩⟩
    simp only [start, Work.go_bind, Work.go_mint, Work.go_statement, hst, Work.go_pure]
    exact ⟨_, _, rfl⟩
  · exact ⟨_, _, rfl⟩

private theorem exists_enter (now : Datestamp) (a : Assignment) {found : Findings}
    (h : s.tables.Wellformed)
    (hkey : s.tables.hasMatchKey config = true) (hr : s.tables.Stores r)
    (hvalues : values.Nodup)
    (hunowned : ∀ v ∈ found.unowned values, ∀ x, ¬s.tables.Owns config x v) :
    ∃ s', (enter now r config values found a).go s = (.ok (), s') := by
  have hfree : ∀ v ∈ found.unowned values, ∀ o ∈ s.tables.owners, o.key ≠ (config, v) := by
    rintro v hv ⟨c, w, cell⟩ ho heq
    obtain ⟨rfl, rfl⟩ := Prod.mk.inj heq
    obtain ⟨x, rfl⟩ := h.owner_intact _ ho
    exact hunowned _ hv x ho
  let s₁ : World := { s with tables := s.tables.advanceWhere (isLeft found a) now }
  let s₂ := inserted config a.cluster (found.unowned values) s₁
  have hinsert : ((found.unowned values).forM fun v ↦
      Work.statement (Tables.insertValue config a.cluster v)).go s₁ = (.ok (), s₂) :=
    go_insertAll hkey (hvalues.filter _) hfree
  obtain ⟨t, hst⟩ : ∃ t, setMember r config a.cluster s₂.tables = .ok ((), t) := by
    by_cases hmember : ∃ m ∈ s.tables.members, m.key = (r, config)
    · exact ⟨_, setMember_ok_iff.mpr (Or.inl ⟨hmember, rfl⟩)⟩
    · have hno : ∀ m ∈ s.tables.members, m.key ≠ (r, config) := fun m hm hk ↦ hmember ⟨m, hm, hk⟩
      exact ⟨_, setMember_ok_iff.mpr (Or.inr ⟨hno, hkey, hr, rfl⟩)⟩
  have hset : (Work.statement (setMember r config a.cluster)).go s₂
      = (.ok (), { s₂ with tables := t }) := Work.go_statement_ok.mpr ⟨t, hst, rfl⟩
  refine ⟨{ s₂ with tables := t }, ?_⟩
  simp only [enter, Work.go_bind, go_leave]
  rw [hinsert, ← hset]

/-- An assignment of a stored record under a match key that is there succeeds, as long as a cluster
owns one of the values or the next identifier is not the one of a cluster already. -/
theorem exists_assign_of (now : Datestamp) (h : s.tables.Wellformed)
    (hkey : s.tables.hasMatchKey config = true)
    (hr : s.tables.Stores r) (hvalues : values.Nodup)
    (hfresh : (∀ x, ¬Touches s.tables config values x) →
      ∀ m ∈ s.tables.marks, m.cluster ≠ ⟨Uuid.ofNat s.ids.next⟩) :
    ∃ a s', (assign now r config values).go s = (.ok a, s') := by
  obtain ⟨found, hsurvey, hfound⟩ := go_survey h r config values
  obtain ⟨a, s₁, hgather⟩ := exists_gather now found hkey fun howning ↦
    hfresh ((owning_eq_nil_iff hfound).mp howning)
  have hg := gather_ok hgather
  have h₁ : s₁.tables.Wellformed := (gather_keepsForm now config found).achieves hgather h
  have hunowned : ∀ v ∈ found.unowned values, ∀ x, ¬s₁.tables.Owns config x v := by
    intro v hv x hx
    obtain ⟨y, hy, -⟩ := (hg.owns config x v).mp hx
    exact (hfound.mem_unowned.mp hv).2 y hy
  have hkey₁ : s₁.tables.hasMatchKey config = true := by
    rw [hasMatchKey, hg.matchKeys]
    exact hkey
  have hr₁ : s₁.tables.Stores r := by
    rw [Stores, hg.records]
    exact hr
  obtain ⟨s', henter⟩ := exists_enter now a h₁ hkey₁ hr₁ hvalues hunowned
  refine ⟨a, s', Work.go_bind_ok.mpr ⟨found, s, hsurvey, ?_⟩⟩
  rw [settle_eq]
  exact Work.go_bind_ok.mpr ⟨a, s₁, hgather, Work.go_bind_ok.mpr ⟨(), s', henter, rfl⟩⟩

/-- An assignment succeeds as long as the next identifier is not the one of a cluster already. -/
theorem exists_assign (now : Datestamp) (h : s.tables.Wellformed)
    (hkey : s.tables.hasMatchKey config = true)
    (hr : s.tables.Stores r) (hvalues : values.Nodup)
    (hfresh : ∀ m ∈ s.tables.marks, m.cluster ≠ ⟨Uuid.ofNat s.ids.next⟩) :
    ∃ a s', (assign now r config values).go s = (.ok a, s') :=
  exists_assign_of now h hkey hr hvalues fun _ ↦ hfresh

end RecordLinkage.Clustering
