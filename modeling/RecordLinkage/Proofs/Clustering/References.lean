import RecordLinkage.Proofs.History.Sound

/-!
# References to clusters

Owners and members name clusters, and no constraint of the schema says that these clusters are
there. In sound tables they are: whatever an owner or a member names has one mark, and the mark
belongs to the match key of the owner or member. So two match keys never share a cluster.

A cluster that is the answer to a question can therefore be asked for. Its view is made of its mark,
its values and its records. The last step is to read the columns of these rows, and that is all that
can fail: a datestamp may be out of range, and a payload may be nested more deeply than what can be
read.
-/

namespace RecordLinkage

namespace Tables

variable {t : Tables} {c c' : String} {x : ClusterId} {m : ClusterMark} {v : String}
  {cell : Cell ClusterId}

/-- An owner or a member names a cluster under a match key. -/
def Refers (t : Tables) (c : String) (cell : Cell ClusterId) : Prop :=
  (∃ o ∈ t.owners, o.config = c ∧ o.cluster = cell) ∨
    ∃ m ∈ t.members, m.config = c ∧ m.cluster = cell

/-- The mark of a cluster and the rows of its members can be read. -/
def Legible (t : Tables) (x : ClusterId) : Prop :=
  (∀ m ∈ t.marks, m.cluster = x → m.datestamp < Datestamp.limit) ∧
    ∀ row ∈ t.memberRows x, ∃ record, row.read = .ok record

/-- A cluster can be asked for: it has one mark, which belongs to the match key, and its view is
answered if its rows can be read. -/
structure Resolves (t : Tables) (c : String) (x : ClusterId) : Prop where
  mark : ∃ m, t.marks.filter (fun m ↦ m.cluster = x) = [m] ∧ m.config = c
  found : t.cluster? x ≠ .ok none
  shown : (∃ view, t.cluster? x = .ok (some view)) ↔ t.Legible x

/-! ## Looking up a cluster -/

namespace Wellformed

variable (h : t.Wellformed)

include h

theorem filter_marks (hm : m ∈ t.marks) : t.marks.filter (fun m' ↦ m'.cluster = m.cluster) = [m] :=
  filter_eq_singleton h.mark_nodup (fun _ ↦ decide_eq_true_iff) hm

theorem mark?_eq (hm : m ∈ t.marks) : t.mark? m.cluster = m.read.map some := by
  rw [mark?, ← List.head?_filter, h.filter_marks hm]
  rfl

/-- The view of a cluster that is marked, row by row. -/
theorem cluster?_eq (hm : m ∈ t.marks) : t.cluster? m.cluster =
    if m.datestamp < Datestamp.limit then
      ((t.memberRows m.cluster).mapM RecordRow.read).map fun records ↦
        some (ClusterView.of m.cluster (some m.datestamp) records (t.valuesOf m.cluster))
    else .error .invalidColumn := by
  rw [cluster?, h.mark?_eq hm, ClusterMark.read]
  split_ifs
  · rcases (t.memberRows m.cluster).mapM RecordRow.read with f | records <;> rfl
  · rfl

end Wellformed

/-- All rows of a list can be read when each of them can. -/
theorem exists_mapM_ok_iff {α β : Type} {f : α → Except Fault β} {rows : List α} :
    (∃ out, rows.mapM f = .ok out) ↔ ∀ a ∈ rows, ∃ b, f a = .ok b := by
  simp only [mapM_ok_iff]
  induction rows with
  | nil => exact iff_of_true ⟨[], .nil⟩ fun a ha ↦ absurd ha List.not_mem_nil
  | cons a rest ih =>
    rw [List.forall_mem_cons, ← ih]
    simp only [List.forall₂_cons_left_iff]
    constructor
    · rintro ⟨_, b, out, ha, hrest, -⟩
      exact ⟨⟨b, ha⟩, out, hrest⟩
    · rintro ⟨⟨b, ha⟩, out, hrest⟩
      exact ⟨b :: out, b, out, ha, hrest, rfl⟩

theorem Wellformed.legible_iff (h : t.Wellformed) (hm : m ∈ t.marks) :
    t.Legible m.cluster ↔ m.datestamp < Datestamp.limit ∧
      ∃ records, (t.memberRows m.cluster).mapM RecordRow.read = .ok records := by
  rw [Legible, exists_mapM_ok_iff]
  refine and_congr_left fun _ ↦ ⟨fun hall ↦ hall m hm rfl, fun hlt m' hm' heq ↦ ?_⟩
  rwa [List.inj_on_of_nodup_map h.mark_nodup hm' hm heq]

/-- A cluster that is marked can be asked for. -/
theorem Wellformed.resolves (h : t.Wellformed) (hm : m ∈ t.marks) :
    t.Resolves m.config m.cluster where
  mark := ⟨m, h.filter_marks hm, rfl⟩
  found := by
    rw [h.cluster?_eq hm]
    split_ifs
    · rcases (t.memberRows m.cluster).mapM RecordRow.read with f | records <;> exact nofun
    · exact nofun
  shown := by
    rw [h.cluster?_eq hm, h.legible_iff hm]
    split_ifs with hlt
    · rcases (t.memberRows m.cluster).mapM RecordRow.read with f | records
      · exact iff_of_false (fun ⟨_, h⟩ ↦ nomatch h) fun ⟨_, _, h⟩ ↦ nomatch h
      · exact iff_of_true ⟨_, rfl⟩ ⟨hlt, records, rfl⟩
    · exact iff_of_false (fun ⟨_, h⟩ ↦ nomatch h) fun h ↦ hlt h.1

/-- What the view of a cluster is made of. -/
theorem Wellformed.view_of_cluster? (h : t.Wellformed) (hm : m ∈ t.marks) {view : ClusterView}
    (hview : t.cluster? m.cluster = .ok (some view)) :
    ∃ records, (t.memberRows m.cluster).mapM RecordRow.read = .ok records ∧
      view = ClusterView.of m.cluster (some m.datestamp) records (t.valuesOf m.cluster) := by
  rw [h.cluster?_eq hm] at hview
  split_ifs at hview
  rcases hrecords : (t.memberRows m.cluster).mapM RecordRow.read with f | records
  · rw [hrecords] at hview
    exact nomatch hview
  · rw [hrecords] at hview
    exact ⟨records, rfl, (Option.some.inj (Except.ok.inj hview)).symm⟩

theorem mem_valuesOf (hx : t.Owns c x v) : v ∈ t.valuesOf x :=
  List.mem_map.mpr ⟨_, List.mem_filter.mpr ⟨hx, decide_eq_true rfl⟩, rfl⟩

theorem Wellformed.exists_memberRow (h : t.Wellformed) {r : RecordId} (hx : t.Holds c x r) :
    ∃ row ∈ t.memberRows x, row.id = .intact r := by
  obtain ⟨row, hrow⟩ := Option.isSome_iff_exists.mp (stores_iff.mp (h.stores_of_holds hx))
  refine ⟨row, List.mem_filterMap.mpr ⟨_, List.mem_filter.mpr ⟨hx, decide_eq_true rfl⟩, hrow⟩, ?_⟩
  simpa using List.find?_some hrow

/-! ## Sound tables -/

namespace Sound

variable (h : t.Sound)

include h

/-- What an owner or a member names is a cluster that is marked. -/
theorem marked_of_refers (hr : t.Refers c cell) : ∃ x, cell = .intact x ∧ t.Marked c x := by
  rcases hr with ⟨⟨c, v, cell⟩, ho, rfl, rfl⟩ | ⟨⟨r, c, cell⟩, hm, rfl, rfl⟩
  · obtain ⟨x, rfl⟩ := h.form.owner_intact _ ho
    exact ⟨x, rfl, h.owner_marked c x v ho⟩
  · obtain ⟨x, rfl⟩ := h.form.member_intact _ hm
    exact ⟨x, rfl, h.member_marked c x r hm⟩

theorem resolves (hx : t.Marked c x) : t.Resolves c x := by
  obtain ⟨m, hm, rfl, rfl⟩ := hx
  exact h.form.resolves hm

/-- The view of the owner of a value lists the value. -/
theorem mem_matchValues (hx : t.Owns c x v) {view : ClusterView}
    (hview : t.cluster? x = .ok (some view)) : view.cluster = x ∧ v ∈ view.matchValues := by
  obtain ⟨m, hm, rfl, -⟩ := h.owner_marked c x v hx
  obtain ⟨records, -, rfl⟩ := h.form.view_of_cluster? hm hview
  exact ⟨rfl, Sorted.mem_ofList.mpr (mem_valuesOf hx)⟩

end Sound

end Tables

/-! ## Worlds that the engine leads to -/

variable {s : World}

/-- **References to clusters are sound.** Whatever the engine has done, and whether it succeeded or
not, a cluster that an owner or a member names has exactly one mark, which belongs to the same match
key, so no cluster serves two match keys. Every cluster that is the answer to a question for an
owner or a membership can be asked for, and its view is made of what it owns and whom it holds. -/
theorem references_resolve (h : Reachable s) :
    (∀ c cell, s.tables.Refers c cell → ∃ x m, cell = .intact x ∧
      s.tables.marks.filter (fun m ↦ m.cluster = x) = [m] ∧ m.config = c) ∧
    (∀ c c' cell, s.tables.Refers c cell → s.tables.Refers c' cell → c = c') ∧
    (∀ c v x, s.tables.ownerOf? c v = .ok (some x) → s.tables.Resolves c x ∧
      ∀ view, s.tables.cluster? x = .ok (some view) → view.cluster = x ∧ v ∈ view.matchValues) ∧
    ∀ c r x, s.tables.clusterOf? r c = .ok (some x) → s.tables.Resolves c x ∧
      ∃ row ∈ s.tables.memberRows x, row.id = .intact r := by
  have hs := h.sound
  refine ⟨?_, ?_, ?_, ?_⟩
  · intro c cell hr
    obtain ⟨x, rfl, hx⟩ := hs.marked_of_refers hr
    obtain ⟨m, hm, hc⟩ := (hs.resolves hx).mark
    exact ⟨x, m, rfl, hm, hc⟩
  · intro c c' cell hr hr'
    obtain ⟨x, rfl, hx⟩ := hs.marked_of_refers hr
    obtain ⟨y, hxy, hy⟩ := hs.marked_of_refers hr'
    obtain rfl := Cell.intact.inj hxy
    exact hs.config_unique hx hy
  · intro c v x hv
    rw [hs.form.ownerOf?_eq_some_iff] at hv
    exact ⟨hs.resolves (hs.owner_marked c x v hv), fun view ↦ hs.mem_matchValues hv⟩
  · intro c r x hr
    rw [hs.form.clusterOf?_eq_some_iff] at hr
    exact ⟨hs.resolves (hs.member_marked c x r hr), hs.form.exists_memberRow hr⟩

open Sample in
/-- The cluster of two records that have been joined is asked for by one of its values. -/
theorem bridge_reference_resolves : ∃ view,
    (run blank bridge).tables.cluster? ⟨Uuid.ofNat 2⟩ = .ok (some view) ∧
      "x" ∈ view.matchValues := by
  have howner : (run blank bridge).tables.ownerOf? "isbn" "x" = .ok (some ⟨Uuid.ofNat 2⟩) := by
    decide +kernel
  have hstamps : ∀ m ∈ (run blank bridge).tables.marks, m.datestamp < Datestamp.limit := by
    decide +kernel
  have hrows : ∀ row ∈ (run blank bridge).tables.memberRows ⟨Uuid.ofNat 2⟩,
      row.read.toOption.isSome = true := by
    decide +kernel
  have hlegible : (run blank bridge).tables.Legible ⟨Uuid.ofNat 2⟩ := by
    refine ⟨fun m hm _ ↦ hstamps m hm, fun row hrow ↦ ?_⟩
    rcases hread : row.read with f | record
    · have hok := hrows row hrow
      rw [hread] at hok
      exact nomatch hok
    · exact ⟨record, rfl⟩
  obtain ⟨-, -, howners, -⟩ := references_resolve reachable_bridge
  obtain ⟨hresolves, hvalues⟩ := howners "isbn" "x" _ howner
  obtain ⟨view, hview⟩ := hresolves.shown.mpr hlegible
  exact ⟨view, hview, (hvalues view hview).2⟩

end RecordLinkage
