import RecordLinkage.Proofs.Store.Schema

/-!
# Owners, members and records as relations

Which cluster owns which value, and which cluster holds which record, is all that the tables of
owners and members say. Read as relations the two tables no longer depend on the order of rows, and
the effect of each statement on them is one equivalence.

In well-formed tables both relations are functions from the right: a value has one owner and a
record is in one cluster. What is looked up is then what the relations say.
-/

namespace RecordLinkage.Tables

variable {t t' : Tables}

/-- A cluster owns a value under a match key. -/
def Owns (t : Tables) (config : String) (x : ClusterId) (v : String) : Prop :=
  (⟨config, v, .intact x⟩ : OwnerRow) ∈ t.owners

/-- A cluster holds a record under a match key. -/
def Holds (t : Tables) (config : String) (x : ClusterId) (r : RecordId) : Prop :=
  (⟨r, config, .intact x⟩ : MemberRow) ∈ t.members

/-- A record is stored. -/
def Stores (t : Tables) (r : RecordId) : Prop := ∃ row ∈ t.records, row.id = .intact r

theorem stores_iff {r : RecordId} : t.Stores r ↔ (t.recordRow? r).isSome = true := by
  simp [Stores, recordRow?]

/-! ## What is looked up -/

/-- Where keys are unique, the row that is found is the row that is there. -/
private theorem find?_eq_some_iff {α κ : Type} {key : α → κ} {k : κ} {p : α → Bool} {a : α}
    {rows : List α} (hnodup : (rows.map key).Nodup) (hp : ∀ a, p a = true ↔ key a = k) :
    rows.find? p = some a ↔ a ∈ rows ∧ key a = k := by
  constructor
  · intro h
    exact ⟨List.mem_of_find?_eq_some h, (hp a).mp (List.find?_some h)⟩
  · rintro ⟨hmem, hkey⟩
    rcases hb : rows.find? p with - | b
    · exact absurd ((hp a).mpr hkey) (List.find?_eq_none.mp hb a hmem)
    · have hbkey : key b = k := (hp b).mp (List.find?_some hb)
      have hbmem : b ∈ rows := List.mem_of_find?_eq_some hb
      rw [List.inj_on_of_nodup_map hnodup hbmem hmem (hbkey.trans hkey.symm)]

/-- Where keys are unique, the row that is there is the only one. -/
theorem filter_eq_singleton {α κ : Type} {key : α → κ} {p : α → Bool} {a : α} {rows : List α}
    (hnodup : (rows.map key).Nodup) (hp : ∀ b, p b = true ↔ key b = key a) (hmem : a ∈ rows) :
    rows.filter p = [a] := by
  obtain ⟨before, after, rfl⟩ := List.append_of_mem hmem
  rw [List.map_append, List.map_cons, List.nodup_middle, List.nodup_cons, ← List.map_append]
    at hnodup
  have hothers : ∀ b ∈ before ++ after, p b = false := fun b hb ↦ by
    rw [← Bool.not_eq_true, hp]
    exact fun hkey ↦ hnodup.1 (hkey ▸ List.mem_map_of_mem hb)
  have hself : p a = true := (hp a).mpr rfl
  rw [List.filter_append, List.filter_cons_of_pos hself,
    List.filter_eq_nil_iff.mpr fun b hb ↦ by simp [hothers b (List.mem_append_left _ hb)],
    List.filter_eq_nil_iff.mpr fun b hb ↦ by simp [hothers b (List.mem_append_right _ hb)],
    List.nil_append]

/-- Rows are read one by one. -/
theorem mapM_ok_iff {α β : Type} {f : α → Except Fault β} {rows : List α} {out : List β} :
    rows.mapM f = .ok out ↔ List.Forall₂ (fun a b ↦ f a = .ok b) rows out := by
  induction rows generalizing out with
  | nil =>
    rw [List.mapM_nil, List.forall₂_nil_left_iff]
    exact ⟨fun h ↦ (Except.ok.inj h).symm, fun h ↦ by rw [h]; rfl⟩
  | cons a rest ih =>
    rw [List.mapM_cons, List.forall₂_cons_left_iff]
    constructor
    · intro h
      rcases ha : f a with e | b
      · rw [ha] at h
        exact nomatch h
      · rcases hrest : rest.mapM f with e | out'
        · rw [ha, hrest] at h
          exact nomatch h
        · rw [ha, hrest] at h
          exact ⟨b, out', rfl, ih.mp hrest, (Except.ok.inj h).symm⟩
    · rintro ⟨b, out', ha, hrest, rfl⟩
      rw [ha, ih.mpr hrest]
      rfl

/-- What is read from rows is read from one of them. -/
theorem exists_row_of_mapM {α β : Type} {f : α → Except Fault β} {rows : List α} {out : List β}
    (h : rows.mapM f = .ok out) {b : β} (hb : b ∈ out) : ∃ a ∈ rows, f a = .ok b := by
  rw [mapM_ok_iff] at h
  induction h with
  | nil => exact absurd hb List.not_mem_nil
  | @cons a b' rest out ha _ ih =>
    rcases List.mem_cons.mp hb with rfl | hb
    · exact ⟨a, List.mem_cons_self, ha⟩
    · obtain ⟨a', ha', hread⟩ := ih hb
      exact ⟨a', List.mem_cons_of_mem a ha', hread⟩

namespace Wellformed

variable (h : t.Wellformed)

include h

theorem owns_unique {config : String} {x y : ClusterId} {v : String} (hx : t.Owns config x v)
    (hy : t.Owns config y v) : x = y := by
  have := List.inj_on_of_nodup_map h.owner_nodup hx hy rfl
  simpa using this

theorem holds_unique {config : String} {x y : ClusterId} {r : RecordId}
    (hx : t.Holds config x r) (hy : t.Holds config y r) : x = y := by
  have := List.inj_on_of_nodup_map h.member_nodup hx hy rfl
  simpa using this

/-- A member of a cluster has no other membership under the match key. -/
theorem filter_members {config : String} {x : ClusterId} {r : RecordId}
    (hx : t.Holds config x r) :
    t.members.filter (fun m ↦ m.record = r && m.config = config) = [⟨r, config, .intact x⟩] :=
  filter_eq_singleton h.member_nodup (fun m ↦ by simp [MemberRow.key]) hx

/-- A record that no cluster holds has no membership. -/
theorem filter_members_eq_nil {config : String} {r : RecordId} (hno : ∀ x, ¬t.Holds config x r) :
    t.members.filter (fun m ↦ m.record = r && m.config = config) = [] := by
  rw [List.filter_eq_nil_iff]
  rintro ⟨q, c, cell⟩ hm hfits
  rw [Bool.and_eq_true, decide_eq_true_iff, decide_eq_true_iff] at hfits
  obtain ⟨rfl, rfl⟩ := hfits
  obtain ⟨x, rfl⟩ := h.member_intact _ hm
  exact hno x hm

/-- Memberships of a record are the same where the same cluster holds it. -/
theorem filter_members_congr (h' : t'.Wellformed) {config : String} {r : RecordId}
    (hholds : ∀ x, t'.Holds config x r ↔ t.Holds config x r) :
    t'.members.filter (fun m ↦ m.record = r && m.config = config)
      = t.members.filter fun m ↦ m.record = r && m.config = config := by
  by_cases hx : ∃ x, t.Holds config x r
  · obtain ⟨x, hx⟩ := hx
    rw [h.filter_members hx, h'.filter_members ((hholds x).mpr hx)]
  · have hno : ∀ x, ¬t.Holds config x r := fun x hx' ↦ hx ⟨x, hx'⟩
    rw [h.filter_members_eq_nil hno,
      h'.filter_members_eq_nil fun x hx' ↦ hno x ((hholds x).mp hx')]

theorem stores_of_holds {config : String} {x : ClusterId} {r : RecordId}
    (hx : t.Holds config x r) : t.Stores r :=
  h.member_record _ hx

theorem ownerCell?_eq_some_iff {config v : String} {cell : Cell ClusterId} :
    t.ownerCell? config v = some cell ↔ ∃ x, cell = .intact x ∧ t.Owns config x v := by
  have hfind : ∀ o, t.owners.find? (fun o ↦ o.config = config && o.value = v) = some o ↔
      o ∈ t.owners ∧ o.key = (config, v) :=
    fun o ↦ find?_eq_some_iff h.owner_nodup fun o ↦ by simp [OwnerRow.key]
  simp only [ownerCell?, Option.map_eq_some_iff, hfind]
  constructor
  · rintro ⟨⟨_, _, cell⟩, ⟨ho, hkey⟩, rfl⟩
    obtain ⟨rfl, rfl⟩ := Prod.mk.inj hkey
    obtain ⟨x, rfl⟩ := h.owner_intact _ ho
    exact ⟨x, rfl, ho⟩
  · rintro ⟨x, rfl, hx⟩
    exact ⟨_, ⟨hx, rfl⟩, rfl⟩

/-- The owner that is found is the cluster that owns the value. -/
theorem ownerOf?_eq_ok_iff {config v : String} {found : Option ClusterId} :
    t.ownerOf? config v = .ok found ↔ ∀ x, found = some x ↔ t.Owns config x v := by
  rw [ownerOf?]
  rcases hcell : t.ownerCell? config v with - | cell
  · have hnone : ∀ x, ¬t.Owns config x v := fun x hx ↦ by
      rw [h.ownerCell?_eq_some_iff.mpr ⟨x, rfl, hx⟩] at hcell
      exact Option.some_ne_none _ hcell
    simp only [Except.ok.injEq, hnone, iff_false]
    exact ⟨fun hf x ↦ by simp [← hf], fun hf ↦ (Option.eq_none_iff_forall_ne_some.mpr hf).symm⟩
  · obtain ⟨x, rfl, hx⟩ := h.ownerCell?_eq_some_iff.mp hcell
    have hiff : ∀ y, t.Owns config y v ↔ y = x :=
      fun y ↦ ⟨fun hy ↦ h.owns_unique hy hx, fun hy ↦ hy ▸ hx⟩
    simp only [Cell.read_intact, Except.map, Except.ok.injEq, hiff]
    constructor
    · intro hf y
      rw [← hf, Option.some.injEq]
      exact eq_comm
    · exact fun hf ↦ ((hf x).mpr rfl).symm

theorem ownerOf?_eq_some_iff {config v : String} {x : ClusterId} :
    t.ownerOf? config v = .ok (some x) ↔ t.Owns config x v := by
  rw [h.ownerOf?_eq_ok_iff]
  refine ⟨fun hf ↦ (hf x).mp rfl, fun hx y ↦ ?_⟩
  rw [Option.some.injEq]
  exact ⟨fun hxy ↦ hxy ▸ hx, fun hy ↦ h.owns_unique hx hy⟩

theorem member?_eq_some_iff {config : String} {r : RecordId} {m : MemberRow} :
    t.member? r config = some m ↔ ∃ x, m = ⟨r, config, .intact x⟩ ∧ t.Holds config x r := by
  have hfind : ∀ m, t.members.find? (fun m ↦ m.record = r && m.config = config) = some m ↔
      m ∈ t.members ∧ m.key = (r, config) :=
    fun m ↦ find?_eq_some_iff h.member_nodup fun m ↦ by simp [MemberRow.key]
  rw [member?, hfind]
  constructor
  · rcases m with ⟨r', config', cell⟩
    rintro ⟨hm, hkey⟩
    obtain ⟨rfl, rfl⟩ := Prod.mk.inj hkey
    obtain ⟨x, rfl⟩ := h.member_intact _ hm
    exact ⟨x, rfl, hm⟩
  · rintro ⟨x, rfl, hx⟩
    exact ⟨hx, rfl⟩

/-- The cluster of a record that is found is the cluster that holds it. -/
theorem clusterOf?_eq_ok_iff {config : String} {r : RecordId} {found : Option ClusterId} :
    t.clusterOf? r config = .ok found ↔ ∀ x, found = some x ↔ t.Holds config x r := by
  rw [clusterOf?]
  rcases hm : t.member? r config with - | m
  · have hnone : ∀ x, ¬t.Holds config x r := fun x hx ↦ by
      rw [h.member?_eq_some_iff.mpr ⟨x, rfl, hx⟩] at hm
      exact Option.some_ne_none _ hm
    simp only [Except.ok.injEq, hnone, iff_false]
    exact ⟨fun hf x ↦ by simp [← hf], fun hf ↦ (Option.eq_none_iff_forall_ne_some.mpr hf).symm⟩
  · obtain ⟨x, rfl, hx⟩ := h.member?_eq_some_iff.mp hm
    have hiff : ∀ y, t.Holds config y r ↔ y = x :=
      fun y ↦ ⟨fun hy ↦ h.holds_unique hy hx, fun hy ↦ hy ▸ hx⟩
    simp only [Cell.read_intact, Except.map, Except.ok.injEq, hiff]
    constructor
    · intro hf y
      rw [← hf, Option.some.injEq]
      exact eq_comm
    · exact fun hf ↦ ((hf x).mpr rfl).symm

theorem clusterOf?_eq_some_iff {config : String} {r : RecordId} {x : ClusterId} :
    t.clusterOf? r config = .ok (some x) ↔ t.Holds config x r := by
  rw [h.clusterOf?_eq_ok_iff]
  refine ⟨fun hf ↦ (hf x).mp rfl, fun hx y ↦ ?_⟩
  rw [Option.some.injEq]
  exact ⟨fun hxy ↦ hxy ▸ hx, fun hy ↦ h.holds_unique hx hy⟩

theorem recordOf?_eq_some_iff {key : RecordKey} {row : RecordRow} :
    t.recordOf? key = some row ↔ row ∈ t.records ∧ row.key = key :=
  find?_eq_some_iff h.recordKey_nodup fun r ↦ by simp

/-- A row is what its key is looked up as. -/
theorem recordOf?_of_mem {row : RecordRow} (hrow : row ∈ t.records) :
    t.recordOf? row.key = some row :=
  h.recordOf?_eq_some_iff.mpr ⟨hrow, rfl⟩

/-- Rows of records with one identifier are one row. -/
theorem record_ext {a b : RecordRow} (ha : a ∈ t.records) (hb : b ∈ t.records)
    (hid : a.id = b.id) : a = b :=
  List.inj_on_of_nodup_map h.recordId_nodup ha hb hid

end Wellformed

/-! ## What statements do -/

theorem owns_merge {config c : String} {winner x : ClusterId} {losers : List ClusterId}
    {v : String} : (t.merge config winner losers).Owns c x v ↔
      ∃ y, t.Owns c y v ∧ x = if c = config ∧ y ∈ losers then winner else y := by
  simp only [Owns, merge_owners, List.mem_map]
  constructor
  · rintro ⟨⟨c', v', cell⟩, ho, heq⟩
    obtain ⟨rfl, rfl, hcell⟩ := OwnerRow.mk.inj heq
    rcases cell with y | text
    · refine ⟨y, ho, ?_⟩
      simp only [moved, Bool.and_eq_true, decide_eq_true_eq, List.contains_iff_mem] at hcell
      split_ifs at hcell ⊢ <;> exact (Cell.intact.inj hcell).symm
    · simp only [moved, reduceCtorEq] at hcell
  · rintro ⟨y, ho, rfl⟩
    refine ⟨_, ho, ?_⟩
    simp only [moved, Bool.and_eq_true, decide_eq_true_eq, List.contains_iff_mem]
    split_ifs <;> rfl

theorem holds_merge {config c : String} {winner x : ClusterId} {losers : List ClusterId}
    {r : RecordId} : (t.merge config winner losers).Holds c x r ↔
      ∃ y, t.Holds c y r ∧ x = if c = config ∧ y ∈ losers then winner else y := by
  simp only [Holds, merge_members, List.mem_map]
  constructor
  · rintro ⟨⟨r', c', cell⟩, hm, heq⟩
    obtain ⟨rfl, rfl, hcell⟩ := MemberRow.mk.inj heq
    rcases cell with y | text
    · refine ⟨y, hm, ?_⟩
      simp only [moved, Bool.and_eq_true, decide_eq_true_eq, List.contains_iff_mem] at hcell
      split_ifs at hcell ⊢ <;> exact (Cell.intact.inj hcell).symm
    · simp only [moved, reduceCtorEq] at hcell
  · rintro ⟨y, hm, rfl⟩
    refine ⟨_, hm, ?_⟩
    simp only [moved, Bool.and_eq_true, decide_eq_true_eq, List.contains_iff_mem]
    split_ifs <;> rfl

theorem holds_setMember {r q : RecordId} {config c : String} {cluster x : ClusterId} {u : Unit}
    (hok : setMember r config cluster t = .ok (u, t')) :
    t'.Holds c x q ↔ if q = r ∧ c = config then x = cluster else t.Holds c x q := by
  rcases setMember_ok_iff.mp hok with ⟨⟨m, hm, hkey⟩, rfl⟩ | ⟨hfree, -, -, rfl⟩
  · obtain ⟨rfl, rfl⟩ := Prod.mk.inj hkey
    simp only [Holds, List.mem_map, placed, Bool.and_eq_true, decide_eq_true_eq]
    split_ifs with hq
    · obtain ⟨rfl, rfl⟩ := hq
      constructor
      · rintro ⟨m', -, heq⟩
        split_ifs at heq with hm'
        · exact (Cell.intact.inj (MemberRow.mk.inj heq).2.2).symm
        · exact absurd ⟨by rw [heq], by rw [heq]⟩ hm'
      · rintro rfl
        exact ⟨m, hm, by rw [if_pos ⟨rfl, rfl⟩]⟩
    · constructor
      · rintro ⟨m', hm', heq⟩
        split_ifs at heq with hm''
        · obtain ⟨rfl, rfl, -⟩ := MemberRow.mk.inj heq
          exact absurd hm'' hq
        · exact heq ▸ hm'
      · intro hx
        exact ⟨_, hx, if_neg hq⟩
  · simp only [Holds, List.mem_append, List.mem_singleton, MemberRow.mk.injEq, Cell.intact.injEq]
    split_ifs with hq
    · obtain ⟨rfl, rfl⟩ := hq
      exact ⟨fun hx ↦ hx.elim (fun hx ↦ absurd rfl (hfree _ hx)) fun hx ↦ hx.2.2,
        fun hx ↦ Or.inr ⟨rfl, rfl, hx⟩⟩
    · exact ⟨fun hx ↦ hx.elim id fun hx ↦ absurd ⟨hx.1, hx.2.1⟩ hq, Or.inl⟩

theorem stores_storeRecord {candidate r : RecordId} {key : RecordKey} {payload : Json}
    {cell : Cell RecordId} (hok : storeRecord candidate key payload t = .ok (cell, t')) :
    t'.Stores r ↔ t.Stores r ∨ cell = .intact r := by
  rcases storeRecord_ok_iff.mp hok with ⟨row, hrow, rfl, rfl⟩ | ⟨-, -, rfl, rfl⟩
  · simp only [Stores, List.mem_map]
    constructor
    · rintro ⟨_, ⟨row', hrow', rfl⟩, hid⟩
      exact Or.inl ⟨row', hrow', (repaid_id _ _ row').symm.trans hid⟩
    · rintro (⟨row', hrow', hid⟩ | hid)
      · exact ⟨_, ⟨row', hrow', rfl⟩, (repaid_id _ _ row').trans hid⟩
      · exact ⟨_, ⟨row, List.mem_of_find?_eq_some hrow, rfl⟩, (repaid_id _ _ row).trans hid⟩
  · simp only [Stores, List.mem_append, List.mem_singleton]
    constructor
    · rintro ⟨row, hrow | rfl, hid⟩
      · exact Or.inl ⟨row, hrow, hid⟩
      · exact Or.inr hid
    · rintro (⟨row, hrow, hid⟩ | hid)
      · exact ⟨row, Or.inl hrow, hid⟩
      · exact ⟨_, Or.inr rfl, hid⟩

theorem stores_deleteRecords {fits : RecordRow → Bool} {now : Datestamp} {r : RecordId} :
    (t.deleteRecords fits now).2.Stores r ↔
      ∃ row ∈ t.records, row.id = .intact r ∧ fits row = false := by
  simp only [Stores, deleteRecords, removeRecords, advanceWhere, List.mem_filter,
    Bool.not_eq_true']
  exact ⟨fun ⟨row, ⟨hrow, hfits⟩, hid⟩ ↦ ⟨row, hrow, hid, hfits⟩,
    fun ⟨row, hrow, hid, hfits⟩ ↦ ⟨row, ⟨hrow, hfits⟩, hid⟩⟩

/-- Deleting records takes them out of their clusters and changes nothing else about members. -/
theorem Wellformed.holds_deleteRecords (h : t.Wellformed) {fits : RecordRow → Bool}
    {now : Datestamp} {config : String} {x : ClusterId} {r : RecordId} :
    (t.deleteRecords fits now).2.Holds config x r ↔
      t.Holds config x r ∧ (t.deleteRecords fits now).2.Stores r := by
  rw [stores_deleteRecords]
  simp only [Holds, Tables.deleteRecords, Tables.removeRecords, Tables.advanceWhere,
    List.mem_filter, Bool.not_eq_true', List.any_eq_false, Bool.and_eq_true, decide_eq_true_eq,
    not_and, Bool.not_eq_true]
  refine and_congr_right fun hx ↦ ?_
  constructor
  · intro hkept
    obtain ⟨row, hrow, hid⟩ := h.member_record _ hx
    exact ⟨row, hrow, hid, hkept row hrow hid⟩
  · rintro ⟨row, hrow, hid, hfits⟩ row' hrow' hid'
    rwa [h.record_ext hrow' hrow (hid'.trans hid.symm)]

end RecordLinkage.Tables
