import Mathlib.Data.List.Sort
import RecordLinkage.Proofs.History.Sound

/-!
# The exact effect of an assignment

In a world that the engine leads to, an assignment of a stored record under a match key that is
there cannot fail, and what the tables look like afterwards is a function of what they looked like
before. `Effect` gives this function row by row: the owner of each value, the cluster of each
record, the marks, and that everything else is as it was.

Only the clusters that own some of the values are merged, and their identifiers are enough to tell
the answer: the least one wins. That a new cluster was never heard of before, and that the cluster
that the record leaves is not the new one, is due to marks: whatever owns a value or holds a record
is marked, and identifiers are taken from the supply once.
-/

namespace RecordLinkage

open Clustering Tables

variable {now : Datestamp} {r : RecordId} {config : String} {values : List String}
  {a : Assignment} {s s' : World} {t t' : Tables}

namespace Tables

/-! ## What an assignment takes over -/

/-- The clusters that own some of the values, ascending. -/
def ownersOf (t : Tables) (config : String) (values : List String) : List ClusterId :=
  Sorted.ofList (values.filterMap fun v ↦ (t.ownerOf? config v).toOption.join)

/-- An assignment takes over a value: it is assigned, or its owner owns an assigned value. -/
def TakesValue (t : Tables) (config : String) (values : List String) (c v : String) : Prop :=
  c = config ∧
    (v ∈ values ∨ ∃ x ∈ t.ownersOf config values, t.ownerOf? config v = .ok (some x))

/-- An assignment takes over a record: it is assigned, or its cluster owns an assigned value. -/
def TakesRecord (t : Tables) (r : RecordId) (config : String) (values : List String) (c : String)
    (q : RecordId) : Prop :=
  c = config ∧
    (q = r ∨ ∃ x ∈ t.ownersOf config values, t.clusterOf? q config = .ok (some x))

/-- An assignment changes a cluster: it owns an assigned value, or it holds the record. -/
def Changes (t : Tables) (r : RecordId) (config : String) (values : List String)
    (x : ClusterId) : Prop :=
  x ∈ t.ownersOf config values ∨ t.clusterOf? r config = .ok (some x)

instance (c v : String) : Decidable (t.TakesValue config values c v) :=
  inferInstanceAs (Decidable (_ ∧ _))

instance (c : String) (q : RecordId) : Decidable (t.TakesRecord r config values c q) :=
  inferInstanceAs (Decidable (_ ∧ _))

instance (x : ClusterId) : Decidable (t.Changes r config values x) :=
  inferInstanceAs (Decidable (_ ∨ _))

theorem pairwise_ownersOf (t : Tables) (config : String) (values : List String) :
    (t.ownersOf config values).Pairwise (· < ·) :=
  Sorted.pairwise_ofList _

theorem mem_ownersOf {x : ClusterId} :
    x ∈ t.ownersOf config values ↔ ∃ v ∈ values, t.ownerOf? config v = .ok (some x) := by
  have hread : ∀ found : Except Fault (Option ClusterId),
      found.toOption.join = some x ↔ found = .ok (some x) := by
    rintro (f | _ | y) <;> simp [Except.toOption]
  simp only [ownersOf, Sorted.mem_ofList, List.mem_filterMap, hread]

/-! ## Where nothing changes, the same is looked up -/

private theorem exists_found {P : ClusterId → Prop} (hunique : ∀ x y, P x → P y → x = y) :
    ∃ found : Option ClusterId, ∀ x, found = some x ↔ P x := by
  by_cases hx : ∃ x, P x
  · obtain ⟨x, hx⟩ := hx
    refine ⟨some x, fun y ↦ ?_⟩
    rw [Option.some.injEq]
    exact ⟨fun hy ↦ hy ▸ hx, hunique x y hx⟩
  · exact ⟨none, fun y ↦ iff_of_false (Option.some_ne_none y).symm fun hy ↦ hx ⟨y, hy⟩⟩

namespace Wellformed

theorem mem_ownersOf_iff (h : t.Wellformed) {x : ClusterId} :
    x ∈ t.ownersOf config values ↔ Touches t config values x := by
  simp only [mem_ownersOf, h.ownerOf?_eq_some_iff, Touches]

theorem ownerOf?_congr (h : t.Wellformed) (h' : t'.Wellformed) {c v : String}
    (howns : ∀ x, t'.Owns c x v ↔ t.Owns c x v) : t'.ownerOf? c v = t.ownerOf? c v := by
  obtain ⟨found, hfound⟩ := exists_found fun x y (hx : t.Owns c x v) hy ↦ h.owns_unique hx hy
  rw [h.ownerOf?_eq_ok_iff.mpr hfound]
  exact h'.ownerOf?_eq_ok_iff.mpr fun x ↦ (hfound x).trans (howns x).symm

theorem clusterOf?_congr (h : t.Wellformed) (h' : t'.Wellformed) {c : String} {q : RecordId}
    (hholds : ∀ x, t'.Holds c x q ↔ t.Holds c x q) : t'.clusterOf? q c = t.clusterOf? q c := by
  obtain ⟨found, hfound⟩ := exists_found fun x y (hx : t.Holds c x q) hy ↦ h.holds_unique hx hy
  rw [h.clusterOf?_eq_ok_iff.mpr hfound]
  exact h'.clusterOf?_eq_ok_iff.mpr fun x ↦ (hfound x).trans (hholds x).symm

theorem takesValue_iff (h : t.Wellformed) {c v : String} : t.TakesValue config values c v ↔
    c = config ∧ (v ∈ values ∨ ∃ y, Touches t config values y ∧ t.Owns config y v) := by
  simp only [TakesValue, h.mem_ownersOf_iff, h.ownerOf?_eq_some_iff]

theorem takesRecord_iff (h : t.Wellformed) {c : String} {q : RecordId} :
    t.TakesRecord r config values c q ↔
      c = config ∧ (q = r ∨ ∃ y, Touches t config values y ∧ t.Holds config y q) := by
  simp only [TakesRecord, h.mem_ownersOf_iff, h.clusterOf?_eq_some_iff]

theorem changes_iff (h : t.Wellformed) {x : ClusterId} : t.Changes r config values x ↔
    Touches t config values x ∨ t.Holds config x r := by
  rw [Changes, h.mem_ownersOf_iff, h.clusterOf?_eq_some_iff]

end Wellformed

end Tables

namespace Clustering

/-! ## Rows -/

/-- What goes to the winner, when it is assigned or its cluster is touched, and stays otherwise. -/
private theorem goes_to_winner_iff {P T : ClusterId → Prop} {N : Prop} {w x : ClusterId}
    (hunique : ∀ x y, P x → P y → x = y) :
    (N ∧ x = w ∨ ¬N ∧ ∃ y, P y ∧ (T y ∧ x = w ∨ ¬T y ∧ x = y)) ↔
      (N ∨ ∃ y, T y ∧ P y) ∧ x = w ∨ ¬(N ∨ ∃ y, T y ∧ P y) ∧ P x := by
  constructor
  · rintro (⟨hn, rfl⟩ | ⟨hn, y, hy, ⟨ht, rfl⟩ | ⟨ht, rfl⟩⟩)
    · exact Or.inl ⟨Or.inl hn, rfl⟩
    · exact Or.inl ⟨Or.inr ⟨y, ht, hy⟩, rfl⟩
    · refine Or.inr ⟨?_, hy⟩
      rintro (hn' | ⟨z, hz, hPz⟩)
      · exact hn hn'
      · exact ht (hunique _ _ hPz hy ▸ hz)
  · rintro (⟨hn | ⟨y, hy, hPy⟩, rfl⟩ | ⟨hno, hx⟩)
    · exact Or.inl ⟨hn, rfl⟩
    · by_cases hn : N
      · exact Or.inl ⟨hn, rfl⟩
      · exact Or.inr ⟨hn, y, hPy, Or.inl ⟨hy, rfl⟩⟩
    · rw [not_or] at hno
      exact Or.inr ⟨hno.1, x, hx, Or.inr ⟨fun ht ↦ hno.2 ⟨x, ht, hx⟩, rfl⟩⟩

namespace Assigned

variable (ha : Assigned now r config values a s s') (h : s.tables.Wellformed)

include ha h

theorem owns_iff (c : String) (x : ClusterId) (v : String) : s'.tables.Owns c x v ↔
    s.tables.TakesValue config values c v ∧ x = a.cluster ∨
      ¬s.tables.TakesValue config values c v ∧ s.tables.Owns c x v := by
  rw [h.takesValue_iff]
  by_cases hc : c = config
  · subst hc
    have howns := goes_to_winner_iff (P := fun x ↦ s.tables.Owns c x v)
      (T := Touches s.tables c values) (N := v ∈ values) (w := a.cluster) (x := x)
      fun x y ↦ h.owns_unique
    simp only [true_and]
    rw [← howns, ha.owns]
    constructor
    · rintro (⟨rfl, hv⟩ | ⟨y, hy, hgoes⟩)
      · exact Or.inl ⟨hv, rfl⟩
      · by_cases hv : v ∈ values
        -- The owner of an assigned value is touched, so it goes to the winner as well.
        · exact Or.inl ⟨hv, (hgoes.resolve_right fun hno ↦ hno.1 ⟨v, hv, hy⟩).2⟩
        · exact Or.inr ⟨hv, y, hy, hgoes⟩
    · rintro (⟨hv, rfl⟩ | ⟨-, hy⟩)
      · exact Or.inl ⟨rfl, hv⟩
      · exact Or.inr hy
  · simp only [hc, false_and, not_false_eq_true, true_and, false_or, ha.owns_other c x v hc]

theorem holds_iff (c : String) (x : ClusterId) (q : RecordId) : s'.tables.Holds c x q ↔
    s.tables.TakesRecord r config values c q ∧ x = a.cluster ∨
      ¬s.tables.TakesRecord r config values c q ∧ s.tables.Holds c x q := by
  rw [h.takesRecord_iff]
  by_cases hc : c = config
  · subst hc
    simp only [true_and]
    rw [← goes_to_winner_iff fun x y ↦ h.holds_unique, ha.holds]
  · simp only [hc, false_and, not_false_eq_true, true_and, false_or, ha.holds_other c x q hc]

end Assigned

/-! ## The whole effect -/

/-- **The exact effect of an assignment.** -/
structure Effect (now : Datestamp) (r : RecordId) (config : String) (values : List String)
    (a : Assignment) (s s' : World) : Prop where
  /-- The least owner of the values wins and the others are merged, ascending; where there is none,
  a cluster is created. -/
  answer : a = Clustering.answer ⟨Uuid.ofNat s.ids.next⟩ (s.tables.ownersOf config values)
  /-- A cluster that is created has no mark, value or record in the world before. -/
  fresh : a.created = true → ∀ c, ¬s.tables.Marked c a.cluster ∧
    (∀ v, ¬s.tables.Owns c a.cluster v) ∧ ∀ q, ¬s.tables.Holds c a.cluster q
  ownerOf? : ∀ c v, s'.tables.ownerOf? c v =
    if s.tables.TakesValue config values c v then .ok (some a.cluster)
    else s.tables.ownerOf? c v
  clusterOf? : ∀ q c, s'.tables.clusterOf? q c =
    if s.tables.TakesRecord r config values c q then .ok (some a.cluster)
    else s.tables.clusterOf? q c
  marks : s'.tables.marks = (s.tables.marks.map fun m ↦
      if s.tables.Changes r config values m.cluster
      then { m with datestamp := max (m.datestamp + 1) now } else m) ++
    if a.created then [⟨a.cluster, config, now⟩] else []
  /-- Each value has one row, each record one row for a match key, and each cluster one mark. -/
  form : s'.tables.Wellformed
  owners : ∀ o : OwnerRow, ¬s.tables.TakesValue config values o.config o.value →
    (o ∈ s'.tables.owners ↔ o ∈ s.tables.owners)
  members : ∀ m : MemberRow, ¬s.tables.TakesRecord r config values m.config m.record →
    (m ∈ s'.tables.members ↔ m ∈ s.tables.members)
  records : s'.tables.records = s.tables.records
  matchKeys : s'.tables.matchKeys = s.tables.matchKeys

namespace Assigned

variable (ha : Assigned now r config values a s s')

include ha

theorem ownerOf?_eq (h : s.tables.Wellformed) (h' : s'.tables.Wellformed) (c v : String) :
    s'.tables.ownerOf? c v = if s.tables.TakesValue config values c v then .ok (some a.cluster)
      else s.tables.ownerOf? c v := by
  split_ifs with htakes
  · exact h'.ownerOf?_eq_some_iff.mpr ((ha.owns_iff h c _ v).mpr (Or.inl ⟨htakes, rfl⟩))
  · refine h.ownerOf?_congr h' fun x ↦ ?_
    simp only [ha.owns_iff h, htakes, false_and, not_false_eq_true, true_and, false_or]

theorem clusterOf?_eq (h : s.tables.Wellformed) (h' : s'.tables.Wellformed) (q : RecordId)
    (c : String) : s'.tables.clusterOf? q c =
      if s.tables.TakesRecord r config values c q then .ok (some a.cluster)
      else s.tables.clusterOf? q c := by
  split_ifs with htakes
  · exact h'.clusterOf?_eq_some_iff.mpr ((ha.holds_iff h c _ q).mpr (Or.inl ⟨htakes, rfl⟩))
  · refine h.clusterOf?_congr h' fun x ↦ ?_
    simp only [ha.holds_iff h, htakes, false_and, not_false_eq_true, true_and, false_or]

theorem mem_owners_iff (h : s.tables.Wellformed) (h' : s'.tables.Wellformed) {o : OwnerRow}
    (ho : ¬s.tables.TakesValue config values o.config o.value) :
    o ∈ s'.tables.owners ↔ o ∈ s.tables.owners := by
  have hiff : ∀ x, s'.tables.Owns o.config x o.value ↔ s.tables.Owns o.config x o.value := by
    intro x
    simp only [ha.owns_iff h, ho, false_and, not_false_eq_true, true_and, false_or]
  obtain ⟨c, v, cell⟩ := o
  constructor
  · intro hmem
    obtain ⟨x, rfl⟩ := h'.owner_intact _ hmem
    exact (hiff x).mp hmem
  · intro hmem
    obtain ⟨x, rfl⟩ := h.owner_intact _ hmem
    exact (hiff x).mpr hmem

theorem mem_members_iff (h : s.tables.Wellformed) (h' : s'.tables.Wellformed) {m : MemberRow}
    (hm : ¬s.tables.TakesRecord r config values m.config m.record) :
    m ∈ s'.tables.members ↔ m ∈ s.tables.members := by
  have hiff : ∀ x, s'.tables.Holds m.config x m.record ↔ s.tables.Holds m.config x m.record := by
    intro x
    simp only [ha.holds_iff h, hm, false_and, not_false_eq_true, true_and, false_or]
  obtain ⟨q, c, cell⟩ := m
  constructor
  · intro hmem
    obtain ⟨x, rfl⟩ := h'.member_intact _ hmem
    exact (hiff x).mp hmem
  · intro hmem
    obtain ⟨x, rfl⟩ := h.member_intact _ hmem
    exact (hiff x).mpr hmem

/-- The winner is not a cluster that the record leaves: it is touched or new. -/
theorem marks_eq (ho : s.Orderly) (hs : s.tables.Sound) (hids : s.ids.next < idLimit)
    (hstamps : ∀ m ∈ s.tables.marks, m.datestamp < Datestamp.limit) :
    s'.tables.marks = (s.tables.marks.map fun m ↦
        if s.tables.Changes r config values m.cluster
        then { m with datestamp := max (m.datestamp + 1) now } else m) ++
      if s.tables.ownersOf config values = [] then [⟨a.cluster, config, now⟩] else [] := by
  obtain ⟨changed, new, hchanged, hnew, hmarks⟩ := ha.marks
  have hiff : ∀ x, changed x = true ↔ s.tables.Changes r config values x := by
    intro x
    rw [hchanged, hs.form.changes_iff]
    refine ⟨Or.imp_right And.left, fun hx ↦ ?_⟩
    by_cases ht : Touches s.tables config values x
    · exact Or.inl ht
    · have hholds := hx.resolve_left ht
      obtain ⟨m, hm, rfl, -⟩ := hs.member_marked _ _ _ hholds
      exact Or.inr ⟨hholds, ha.ne_winner hids (ho.mark_lt m hm) ht⟩
  rw [hmarks]
  congr 1
  · refine List.map_congr_left fun m hm ↦ ?_
    simp only [advanced, hiff, Datestamp.advance, min_eq_left (Int.add_one_le_of_lt (hstamps m hm))]
  · rcases hnew with ⟨rfl, ht⟩ | ⟨rfl, hno, -⟩
    · rw [if_neg (List.ne_nil_of_mem (hs.form.mem_ownersOf_iff.mpr ht))]
    · rw [if_pos]
      exact List.eq_nil_iff_forall_not_mem.mpr fun x hx ↦ hno x (hs.form.mem_ownersOf_iff.mp hx)

end Assigned

end Clustering

/-- **An assignment has exactly one effect.** In a world that the engine leads to, with datestamps
in range, assigning a stored record under a match key that is there succeeds for every set of values
and at every reading of the clock. The least of the clusters that own some of the values wins, or a
new cluster does; it takes over what is assigned and what these clusters own and hold; the marks of
these clusters and of the one that the record was in advance, each once; and nothing else changes. -/
theorem assign_exact_effect (h : Reachable s) (hids : s.ids.next < idLimit)
    (hstamps : ∀ m ∈ s.tables.marks, m.datestamp < Datestamp.limit)
    (hr : s.tables.Stores r) (hkey : s.tables.hasMatchKey config = true) (hvalues : values.Nodup)
    (now : Datestamp) : ∃ a s', (assign now r config values).go s = (.ok a, s') ∧
      Effect now r config values a s s' := by
  have hs := h.sound
  have ho := h.orderly hids.le
  obtain ⟨a, s', hgo⟩ := exists_assign now hs.form hkey hr hvalues (ho.fresh_mark hids)
  obtain ⟨found, s₁, hfound, hgather, -⟩ := exists_halves hs.form hgo
  have ha := assigned_of_ok hs.form hgo
  have h' : s'.tables.Wellformed := (assign_keepsForm now r config values).achieves hgo hs.form
  have howning : found.owning = s.tables.ownersOf config values :=
    (Findings.Agree.owning_pairwise found).eq_of_mem_iff (pairwise_ownersOf _ _ _) fun x ↦
      hfound.mem_owning.trans hs.form.mem_ownersOf_iff.symm
  have hanswer := eq_answer_of_gather hgather
  rw [howning] at hanswer
  have hcreated : a.created = true ↔ s.tables.ownersOf config values = [] := by
    rw [hanswer]
    rcases s.tables.ownersOf config values with - | ⟨x, rest⟩ <;> simp [answer]
  refine ⟨a, s', hgo, ?_⟩
  exact {
    answer := hanswer
    fresh := fun ha' c ↦ by
      have hcluster : a.cluster = ⟨Uuid.ofNat s.ids.next⟩ := by
        rw [hanswer, hcreated.mp ha', answer]
      have hunmarked : ¬s.tables.Marked c a.cluster := by
        rintro ⟨m, hm, hmx, -⟩
        exact ho.fresh_mark hids m hm (hmx.trans hcluster)
      exact ⟨hunmarked, fun v hv ↦ hunmarked (hs.owner_marked c _ v hv),
        fun q hq ↦ hunmarked (hs.member_marked c _ q hq)⟩
    ownerOf? := ha.ownerOf?_eq hs.form h'
    clusterOf? := ha.clusterOf?_eq hs.form h'
    marks := by simp only [ha.marks_eq ho hs hids hstamps, hcreated]
    form := h'
    owners := fun o ↦ ha.mem_owners_iff hs.form h'
    members := fun m ↦ ha.mem_members_iff hs.form h'
    records := ha.records
    matchKeys := ha.matchKeys }

open Sample in
/-- The last assignment of the history merges the younger cluster into the older one. -/
theorem last_assignment_merges : ∃ a s',
    (assign 6 ⟨Uuid.ofNat 1⟩ "isbn" ["z", "y"]).go (run blank bridge.dropLast) = (.ok a, s') ∧
      a = ⟨⟨Uuid.ofNat 2⟩, false, [⟨Uuid.ofNat 3⟩]⟩ ∧
      s'.tables.ownerOf? "isbn" "x" = .ok (some ⟨Uuid.ofNat 2⟩) ∧
      s'.tables.clusterOf? ⟨Uuid.ofNat 1⟩ "isbn" = .ok (some ⟨Uuid.ofNat 2⟩) ∧
      s'.tables.marks = [⟨⟨Uuid.ofNat 2⟩, "isbn", 6⟩, ⟨⟨Uuid.ofNat 3⟩, "isbn", 6⟩] := by
  have hreachable : Reachable (run blank bridge.dropLast) :=
    ⟨blank, bridge.dropLast, rfl, rfl,
      by simp [bridge, Operation.IsEngine, Operation.reading?, Datestamp.limit]⟩
  have hr : (run blank bridge.dropLast).tables.Stores ⟨Uuid.ofNat 1⟩ :=
    stores_iff.mpr (by decide +kernel)
  have hkey : (run blank bridge.dropLast).tables.hasMatchKey "isbn" = true := by decide +kernel
  have hvalues : ["z", "y"].Nodup := by decide
  obtain ⟨a, s', hgo, heffect⟩ := assign_exact_effect hreachable (by decide +kernel)
    (by decide +kernel) hr hkey hvalues 6
  have hanswer : a = ⟨⟨Uuid.ofNat 2⟩, false, [⟨Uuid.ofNat 3⟩]⟩ := by
    rw [heffect.answer]
    decide +kernel
  subst hanswer
  refine ⟨_, s', hgo, rfl, ?_, ?_, ?_⟩
  · rw [heffect.ownerOf?]
    decide +kernel
  · rw [heffect.clusterOf?]
    decide +kernel
  · rw [heffect.marks]
    decide +kernel

end RecordLinkage
