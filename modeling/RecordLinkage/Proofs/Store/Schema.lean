import Mathlib.Data.List.Nodup
import RecordLinkage.Store.Clusters

/-!
# What the schema promises

Tables are well formed when what has to be unique is unique, what refers to something refers to
something that is there, and every column that holds an identifier holds one in its written form.
This is what the declared constraints enforce, so each statement by itself keeps it, in any order
and with any arguments. It says nothing about how owners, members and marks of one cluster belong
together: no constraint is declared for that.

For each statement that can fail, `…_ok_iff` says when it succeeds and what it leaves.
-/

namespace RecordLinkage

/-- What an owner is unique by. -/
def OwnerRow.key (o : OwnerRow) : String × String := (o.config, o.value)

/-- What a membership is unique by. -/
def MemberRow.key (m : MemberRow) : RecordId × String := (m.record, m.config)

namespace Tables

/-! ## What is unique -/

section Unique

variable {α β : Type} {key : α → β} {rows : List α}

/-- A row whose key is free may be added. -/
theorem nodup_map_concat {row : α} (h : (rows.map key).Nodup)
    (hfree : ∀ r ∈ rows, key r ≠ key row) : ((rows ++ [row]).map key).Nodup := by
  rw [List.map_append, List.map_singleton]
  refine h.append (List.nodup_singleton _) ?_
  rw [List.disjoint_singleton]
  intro hmem
  obtain ⟨r, hr, hkey⟩ := List.mem_map.mp hmem
  exact hfree r hr hkey

/-- Rows may be changed as long as they keep their keys. -/
theorem nodup_map_map {change : α → α} (h : (rows.map key).Nodup)
    (hkey : ∀ r, key (change r) = key r) : ((rows.map change).map key).Nodup := by
  rw [List.map_map]
  exact (congrArg List.Nodup (List.map_congr_left fun r _ ↦ hkey r)).mpr h

end Unique

/-! ## The schema -/

/-- The constraints of the schema hold. -/
structure Wellformed (t : Tables) : Prop where
  /-- Match keys have names of their own. -/
  matchKey_nodup : (t.matchKeys.map MatchKeyRow.id).Nodup
  /-- Records have identifiers of their own. -/
  recordId_nodup : (t.records.map RecordRow.id).Nodup
  /-- Records have keys of their own. -/
  recordKey_nodup : (t.records.map RecordRow.key).Nodup
  /-- The identifier of a record can be read. -/
  record_intact : ∀ r ∈ t.records, ∃ id, r.id = .intact id
  /-- A cluster has one mark. -/
  mark_nodup : (t.marks.map ClusterMark.cluster).Nodup
  /-- A mark belongs to a match key. -/
  mark_config : ∀ m ∈ t.marks, t.hasMatchKey m.config
  /-- A value has one owner under a match key. -/
  owner_nodup : (t.owners.map OwnerRow.key).Nodup
  /-- The owner of a value can be read. -/
  owner_intact : ∀ o ∈ t.owners, ∃ x, o.cluster = .intact x
  /-- An owner belongs to a match key. -/
  owner_config : ∀ o ∈ t.owners, t.hasMatchKey o.config
  /-- A record has one membership under a match key. -/
  member_nodup : (t.members.map MemberRow.key).Nodup
  /-- The cluster of a member can be read. -/
  member_intact : ∀ m ∈ t.members, ∃ x, m.cluster = .intact x
  /-- A membership belongs to a match key. -/
  member_config : ∀ m ∈ t.members, t.hasMatchKey m.config
  /-- A member is a record. -/
  member_record : ∀ m ∈ t.members, ∃ r ∈ t.records, r.id = .intact m.record

variable {t t' : Tables}

theorem wellformed_empty : empty.Wellformed where
  matchKey_nodup := List.nodup_nil
  recordId_nodup := List.nodup_nil
  recordKey_nodup := List.nodup_nil
  record_intact := by simp [empty]
  mark_nodup := List.nodup_nil
  mark_config := by simp [empty]
  owner_nodup := List.nodup_nil
  owner_intact := by simp [empty]
  owner_config := by simp [empty]
  member_nodup := List.nodup_nil
  member_intact := by simp [empty]
  member_config := by simp [empty]
  member_record := by simp [empty]

theorem hasMatchKey_iff {id : String} :
    t.hasMatchKey id = true ↔ ∃ k ∈ t.matchKeys, k.id = id := by
  simp [hasMatchKey]

/-! ## Match keys -/

theorem insertMatchKey_ok_iff {k : MatchKey} {u : Unit} :
    insertMatchKey k t = .ok (u, t') ↔ t.hasMatchKey k.id = false ∧
      t' = { t with matchKeys := t.matchKeys ++ [MatchKeyRow.ofMatchKey k] } := by
  rw [insertMatchKey]
  split_ifs with h
  · simp [h]
  · simp [h, eq_comm]

theorem Wellformed.insertMatchKey (h : t.Wellformed) {k : MatchKey} {u : Unit}
    (hok : Tables.insertMatchKey k t = .ok (u, t')) : t'.Wellformed := by
  obtain ⟨hnew, rfl⟩ := insertMatchKey_ok_iff.mp hok
  have hmono : ∀ {id : String}, t.hasMatchKey id = true →
      Tables.hasMatchKey { t with matchKeys := t.matchKeys ++ [MatchKeyRow.ofMatchKey k] } id
        = true := by
    intro id hid
    obtain ⟨r, hr, hrid⟩ := hasMatchKey_iff.mp hid
    exact hasMatchKey_iff.mpr ⟨r, List.mem_append_left _ hr, hrid⟩
  refine { h with
    matchKey_nodup := ?_
    mark_config := fun m hm ↦ hmono (h.mark_config m hm)
    owner_config := fun o ho ↦ hmono (h.owner_config o ho)
    member_config := fun m hm ↦ hmono (h.member_config m hm) }
  refine nodup_map_concat h.matchKey_nodup fun r hr hrid ↦ ?_
  have hold : t.hasMatchKey k.id = true := hasMatchKey_iff.mpr ⟨r, hr, hrid⟩
  rw [hold] at hnew
  exact Bool.noConfusion hnew

theorem hasMatchKey_updateMatchKey (k : MatchKey) (id : String) :
    (t.updateMatchKey k).2.hasMatchKey id = t.hasMatchKey id := by
  rw [hasMatchKey, hasMatchKey, updateMatchKey, List.any_map]
  congr 1
  funext r
  by_cases h : r.id = k.id
  · simp [h, MatchKeyRow.ofMatchKey]
  · simp [h]

theorem Wellformed.updateMatchKey (h : t.Wellformed) (k : MatchKey) :
    (t.updateMatchKey k).2.Wellformed := by
  refine { h with
    matchKey_nodup := ?_
    mark_config := fun m hm ↦ (hasMatchKey_updateMatchKey k _).trans (h.mark_config m hm)
    owner_config := fun o ho ↦ (hasMatchKey_updateMatchKey k _).trans (h.owner_config o ho)
    member_config := fun m hm ↦ (hasMatchKey_updateMatchKey k _).trans (h.member_config m hm) }
  have hids : (t.updateMatchKey k).2.matchKeys.map MatchKeyRow.id
      = t.matchKeys.map MatchKeyRow.id := by
    rw [Tables.updateMatchKey, List.map_map]
    refine List.map_congr_left fun r _ ↦ ?_
    by_cases hr : r.id = k.id
    · simp [hr, MatchKeyRow.ofMatchKey]
    · simp [hr]
  rw [hids]
  exact h.matchKey_nodup

theorem Wellformed.clear (h : t.Wellformed) (config : String) : (t.clear config).Wellformed where
  matchKey_nodup := h.matchKey_nodup
  recordId_nodup := h.recordId_nodup
  recordKey_nodup := h.recordKey_nodup
  record_intact := h.record_intact
  mark_nodup := h.mark_nodup.sublist (List.filter_sublist.map _)
  mark_config m hm := h.mark_config m (List.mem_of_mem_filter hm)
  owner_nodup := h.owner_nodup.sublist (List.filter_sublist.map _)
  owner_intact o ho := h.owner_intact o (List.mem_of_mem_filter ho)
  owner_config o ho := h.owner_config o (List.mem_of_mem_filter ho)
  member_nodup := h.member_nodup.sublist (List.filter_sublist.map _)
  member_intact m hm := h.member_intact m (List.mem_of_mem_filter hm)
  member_config m hm := h.member_config m (List.mem_of_mem_filter hm)
  member_record m hm := h.member_record m (List.mem_of_mem_filter hm)

theorem hasMatchKey_deleteMatchKey {id other : String} (h : other ≠ id) :
    (t.deleteMatchKey id).2.hasMatchKey other = t.hasMatchKey other := by
  rw [Bool.eq_iff_iff, hasMatchKey_iff, hasMatchKey_iff]
  constructor
  · rintro ⟨r, hr, hrid⟩
    exact ⟨r, List.mem_of_mem_filter hr, hrid⟩
  · rintro ⟨r, hr, rfl⟩
    exact ⟨r, List.mem_filter.mpr ⟨hr, by simpa using h⟩, rfl⟩

/-- What belongs to a match key goes with it, so nothing refers to one that is gone. -/
theorem Wellformed.deleteMatchKey (h : t.Wellformed) (id : String) :
    (t.deleteMatchKey id).2.Wellformed := by
  have hc := h.clear id
  refine { hc with
    matchKey_nodup := h.matchKey_nodup.sublist (List.filter_sublist.map _)
    mark_config := fun m hm ↦ ?_
    owner_config := fun o ho ↦ ?_
    member_config := fun m hm ↦ ?_ }
  · rw [hasMatchKey_deleteMatchKey (by simpa using (List.mem_filter.mp hm).2)]
    exact hc.mark_config m hm
  · rw [hasMatchKey_deleteMatchKey (by simpa using (List.mem_filter.mp ho).2)]
    exact hc.owner_config o ho
  · rw [hasMatchKey_deleteMatchKey (by simpa using (List.mem_filter.mp hm).2)]
    exact hc.member_config m hm

/-! ## Marks -/

theorem createMark_ok_iff {cluster : ClusterId} {config : String} {now : Datestamp} {u : Unit} :
    createMark cluster config now t = .ok (u, t') ↔
      (∀ m ∈ t.marks, m.cluster ≠ cluster) ∧ t.hasMatchKey config = true ∧
        t' = { t with marks := t.marks ++ [⟨cluster, config, now⟩] } := by
  have hany : (t.marks.any fun m ↦ decide (m.cluster = cluster)) = true ↔
      ¬∀ m ∈ t.marks, m.cluster ≠ cluster := by
    simp
  rw [createMark]
  split_ifs with hmark hkey
  · simp [hany.mp hmark]
  · simp only [Bool.not_eq_true'] at hkey
    simp [hkey]
  · rw [hany, not_not] at hmark
    simp only [Bool.not_eq_true', Bool.not_eq_false] at hkey
    simp only [Except.ok.injEq, Prod.mk.injEq, true_and]
    exact ⟨fun h ↦ ⟨hmark, hkey, h.symm⟩, fun h ↦ h.2.2.symm⟩

theorem Wellformed.createMark (h : t.Wellformed) {cluster : ClusterId} {config : String}
    {now : Datestamp} {u : Unit} (hok : Tables.createMark cluster config now t = .ok (u, t')) :
    t'.Wellformed := by
  obtain ⟨hnew, hkey, rfl⟩ := createMark_ok_iff.mp hok
  refine { h with mark_nodup := ?_, mark_config := fun m hm ↦ ?_ }
  · exact nodup_map_concat h.mark_nodup hnew
  · rcases List.mem_append.mp hm with hm | hm
    · exact h.mark_config m hm
    · rw [List.mem_singleton.mp hm]
      exact hkey

/-- The mark of a cluster after some clusters have been marked as changed. -/
def advanced (changed : ClusterId → Bool) (now : Datestamp) (m : ClusterMark) : ClusterMark :=
  if changed m.cluster then { m with datestamp := m.datestamp.advance now } else m

theorem advanceWhere_marks (t : Tables) (changed : ClusterId → Bool) (now : Datestamp) :
    (t.advanceWhere changed now).marks = t.marks.map (advanced changed now) := rfl

@[simp] theorem advanced_cluster (changed : ClusterId → Bool) (now : Datestamp) (m : ClusterMark) :
    (advanced changed now m).cluster = m.cluster := by
  rw [advanced]
  split_ifs <;> rfl

@[simp] theorem advanced_config (changed : ClusterId → Bool) (now : Datestamp) (m : ClusterMark) :
    (advanced changed now m).config = m.config := by
  rw [advanced]
  split_ifs <;> rfl

theorem Wellformed.advanceWhere (h : t.Wellformed) (changed : ClusterId → Bool)
    (now : Datestamp) : (t.advanceWhere changed now).Wellformed := by
  refine { h with mark_nodup := ?_, mark_config := ?_ }
  · exact nodup_map_map h.mark_nodup fun m ↦ advanced_cluster _ _ m
  · intro m hm
    obtain ⟨m₀, hm₀, rfl⟩ := List.mem_map.mp hm
    exact (congrArg _ (advanced_config _ _ m₀)).trans (h.mark_config m₀ hm₀)

/-! ## Owners and members -/

/-- Where a cell points after the values and members of some clusters were given away. -/
def moved (config : String) (winner : ClusterId) (losers : List ClusterId) (under : String) :
    Cell ClusterId → Cell ClusterId
  | .intact c => if under = config && losers.contains c then .intact winner else .intact c
  | .other text => .other text

theorem merge_owners (t : Tables) (config : String) (winner : ClusterId)
    (losers : List ClusterId) : (t.merge config winner losers).owners = t.owners.map fun o ↦
      { o with cluster := moved config winner losers o.config o.cluster } := by
  refine List.map_congr_left fun o _ ↦ ?_
  cases o.cluster <;> rfl

theorem merge_members (t : Tables) (config : String) (winner : ClusterId)
    (losers : List ClusterId) : (t.merge config winner losers).members
      = t.members.map fun m ↦
        { m with cluster := moved config winner losers m.config m.cluster } := by
  refine List.map_congr_left fun m _ ↦ ?_
  cases m.cluster <;> rfl

theorem exists_moved_eq_intact (config : String) (winner : ClusterId) (losers : List ClusterId)
    (under : String) (c : ClusterId) :
    ∃ x, moved config winner losers under (.intact c) = .intact x := by
  rw [moved]
  split_ifs
  · exact ⟨winner, rfl⟩
  · exact ⟨c, rfl⟩

theorem Wellformed.merge (h : t.Wellformed) (config : String) (winner : ClusterId)
    (losers : List ClusterId) : (t.merge config winner losers).Wellformed := by
  refine { h with
    owner_nodup := ?_, owner_intact := ?_, owner_config := ?_
    member_nodup := ?_, member_intact := ?_, member_config := ?_, member_record := ?_ }
  · rw [merge_owners, List.map_map]
    exact h.owner_nodup
  · rw [merge_owners]
    intro o ho
    obtain ⟨o₀, ho₀, rfl⟩ := List.mem_map.mp ho
    obtain ⟨c, hc⟩ := h.owner_intact o₀ ho₀
    rw [hc]
    exact exists_moved_eq_intact ..
  · rw [merge_owners]
    intro o ho
    obtain ⟨o₀, ho₀, rfl⟩ := List.mem_map.mp ho
    exact h.owner_config o₀ ho₀
  · rw [merge_members, List.map_map]
    exact h.member_nodup
  · rw [merge_members]
    intro m hm
    obtain ⟨m₀, hm₀, rfl⟩ := List.mem_map.mp hm
    obtain ⟨c, hc⟩ := h.member_intact m₀ hm₀
    rw [hc]
    exact exists_moved_eq_intact ..
  · rw [merge_members]
    intro m hm
    obtain ⟨m₀, hm₀, rfl⟩ := List.mem_map.mp hm
    exact h.member_config m₀ hm₀
  · rw [merge_members]
    intro m hm
    obtain ⟨m₀, hm₀, rfl⟩ := List.mem_map.mp hm
    exact h.member_record m₀ hm₀

theorem ownerCell?_isSome_iff {config value : String} :
    (t.ownerCell? config value).isSome = true ↔ ∃ o ∈ t.owners, o.key = (config, value) := by
  simp [ownerCell?, OwnerRow.key]

theorem insertValue_ok_iff {config : String} {cluster : ClusterId} {value : String} {u : Unit} :
    insertValue config cluster value t = .ok (u, t') ↔
      (∀ o ∈ t.owners, o.key ≠ (config, value)) ∧ t.hasMatchKey config = true ∧
        t' = { t with owners := t.owners ++ [⟨config, value, .intact cluster⟩] } := by
  rw [insertValue]
  split_ifs with howned hkey
  · obtain ⟨o, ho, hkey⟩ := ownerCell?_isSome_iff.mp howned
    simp only [false_iff]
    exact fun h ↦ h.1 o ho hkey
  · simp only [Bool.not_eq_true'] at hkey
    simp [hkey]
  · rw [ownerCell?_isSome_iff, not_exists] at howned
    simp only [Bool.not_eq_true', Bool.not_eq_false] at hkey
    have hfree : ∀ o ∈ t.owners, o.key ≠ (config, value) := fun o ho h ↦ howned o ⟨ho, h⟩
    simp only [Except.ok.injEq, Prod.mk.injEq, true_and]
    exact ⟨fun h ↦ ⟨hfree, hkey, h.symm⟩, fun h ↦ h.2.2.symm⟩

theorem Wellformed.insertValue (h : t.Wellformed) {config : String} {cluster : ClusterId}
    {value : String} {u : Unit} (hok : Tables.insertValue config cluster value t = .ok (u, t')) :
    t'.Wellformed := by
  obtain ⟨hfree, hkey, rfl⟩ := insertValue_ok_iff.mp hok
  refine { h with owner_nodup := ?_, owner_intact := fun o ho ↦ ?_, owner_config := fun o ho ↦ ?_ }
  · exact nodup_map_concat h.owner_nodup hfree
  · rcases List.mem_append.mp ho with ho | ho
    · exact h.owner_intact o ho
    · exact ⟨cluster, by rw [List.mem_singleton.mp ho]⟩
  · rcases List.mem_append.mp ho with ho | ho
    · exact h.owner_config o ho
    · rw [List.mem_singleton.mp ho]
      exact hkey

/-- The membership of a record after it was made a member of a cluster. -/
def placed (record : RecordId) (config : String) (cluster : ClusterId) (m : MemberRow) :
    MemberRow :=
  if m.record = record && m.config = config then { m with cluster := .intact cluster } else m

@[simp] theorem placed_key (record : RecordId) (config : String) (cluster : ClusterId)
    (m : MemberRow) : (placed record config cluster m).key = m.key := by
  rw [placed]
  split_ifs <;> rfl

theorem member?_isSome_iff {record : RecordId} {config : String} :
    (t.member? record config).isSome = true ↔ ∃ m ∈ t.members, m.key = (record, config) := by
  simp [member?, MemberRow.key]

theorem recordRow?_isNone_iff {record : RecordId} :
    (t.recordRow? record).isNone = true ↔ ∀ r ∈ t.records, r.id ≠ .intact record := by
  simp [recordRow?]

/-- A membership is changed where there is one, and added where the record and the match key are
there. -/
theorem setMember_ok_iff {record : RecordId} {config : String} {cluster : ClusterId} {u : Unit} :
    setMember record config cluster t = .ok (u, t') ↔
      ((∃ m ∈ t.members, m.key = (record, config)) ∧
          t' = { t with members := t.members.map (placed record config cluster) }) ∨
        ((∀ m ∈ t.members, m.key ≠ (record, config)) ∧ t.hasMatchKey config = true ∧
          (∃ r ∈ t.records, r.id = .intact record) ∧
          t' = { t with members := t.members ++ [⟨record, config, .intact cluster⟩] }) := by
  rw [setMember]
  split_ifs with hmember hmissing
  · rw [member?_isSome_iff] at hmember
    have hnot : ¬∀ m ∈ t.members, m.key ≠ (record, config) := by
      push Not
      exact hmember
    simp only [Except.ok.injEq, Prod.mk.injEq, true_and, hmember, hnot, false_and, or_false]
    exact eq_comm
  · rw [member?_isSome_iff] at hmember
    simp only [Bool.or_eq_true, Bool.not_eq_true', recordRow?_isNone_iff] at hmissing
    simp only [hmember, false_and, false_or, false_iff]
    rintro ⟨-, hkey, ⟨r, hr, hrid⟩, -⟩
    rcases hmissing with h | h
    · rw [hkey] at h
      exact Bool.noConfusion h
    · exact h r hr hrid
  · rw [member?_isSome_iff] at hmember
    simp only [Bool.or_eq_true, Bool.not_eq_true', recordRow?_isNone_iff, not_or,
      Bool.not_eq_false] at hmissing
    have hrecord : ∃ r ∈ t.records, r.id = .intact record := by
      have := hmissing.2
      push Not at this
      exact this
    have hfree : ∀ m ∈ t.members, m.key ≠ (record, config) := fun m hm h ↦ hmember ⟨m, hm, h⟩
    simp only [Except.ok.injEq, Prod.mk.injEq, true_and, hmember, false_and, false_or,
      hmissing.1, hrecord]
    exact ⟨fun h ↦ ⟨fun m hm ↦ hfree m hm, h.symm⟩, fun h ↦ h.2.symm⟩

theorem Wellformed.setMember (h : t.Wellformed) {record : RecordId} {config : String}
    {cluster : ClusterId} {u : Unit}
    (hok : Tables.setMember record config cluster t = .ok (u, t')) : t'.Wellformed := by
  rcases setMember_ok_iff.mp hok with ⟨-, rfl⟩ | ⟨hfree, hkey, ⟨r, hr, hrid⟩, rfl⟩
  · refine { h with
      member_nodup := ?_, member_intact := fun m hm ↦ ?_
      member_config := fun m hm ↦ ?_, member_record := fun m hm ↦ ?_ }
    · exact nodup_map_map h.member_nodup fun m ↦ placed_key _ _ _ m
    · obtain ⟨m₀, hm₀, rfl⟩ := List.mem_map.mp hm
      rw [placed]
      split_ifs
      · exact ⟨cluster, rfl⟩
      · exact h.member_intact m₀ hm₀
    · obtain ⟨m₀, hm₀, rfl⟩ := List.mem_map.mp hm
      have hc := congrArg Prod.snd (placed_key record config cluster m₀)
      exact (congrArg _ hc).trans (h.member_config m₀ hm₀)
    · obtain ⟨m₀, hm₀, rfl⟩ := List.mem_map.mp hm
      obtain ⟨r, hr, hrid⟩ := h.member_record m₀ hm₀
      have hc := congrArg Prod.fst (placed_key record config cluster m₀)
      exact ⟨r, hr, hrid.trans (congrArg Cell.intact hc.symm)⟩
  · refine { h with
      member_nodup := ?_, member_intact := fun m hm ↦ ?_
      member_config := fun m hm ↦ ?_, member_record := fun m hm ↦ ?_ }
    · exact nodup_map_concat h.member_nodup hfree
    · rcases List.mem_append.mp hm with hm | hm
      · exact h.member_intact m hm
      · exact ⟨cluster, by rw [List.mem_singleton.mp hm]⟩
    · rcases List.mem_append.mp hm with hm | hm
      · exact h.member_config m hm
      · rw [List.mem_singleton.mp hm]
        exact hkey
    · rcases List.mem_append.mp hm with hm | hm
      · exact h.member_record m hm
      · rw [List.mem_singleton.mp hm]
        exact ⟨r, hr, hrid⟩

/-! ## Records -/

/-- The row of a record after a payload was stored under a key. -/
def repaid (key : RecordKey) (payload : Json) (r : RecordRow) : RecordRow :=
  if r.key = key then { r with payload := payload.text } else r

@[simp] theorem repaid_id (key : RecordKey) (payload : Json) (r : RecordRow) :
    (repaid key payload r).id = r.id := by
  rw [repaid]
  split_ifs <;> rfl

@[simp] theorem repaid_key (key : RecordKey) (payload : Json) (r : RecordRow) :
    (repaid key payload r).key = r.key := by
  rw [repaid]
  split_ifs <;> rfl

theorem storeRecord_ok_iff {candidate : RecordId} {key : RecordKey} {payload : Json}
    {cell : Cell RecordId} :
    storeRecord candidate key payload t = .ok (cell, t') ↔
      (∃ row, t.recordOf? key = some row ∧ cell = row.id ∧
          t' = { t with records := t.records.map (repaid key payload) }) ∨
        (t.recordOf? key = none ∧ (∀ r ∈ t.records, r.id ≠ .intact candidate) ∧
          cell = .intact candidate ∧
          t' = { t with records := t.records ++ [⟨.intact candidate, key, payload.text⟩] }) := by
  rw [storeRecord]
  rcases hrow : t.recordOf? key with - | row
  · simp only [reduceCtorEq, false_and, exists_false, false_or, true_and]
    split_ifs with hid
    · have : ¬∀ r ∈ t.records, r.id ≠ .intact candidate := by
        rw [← recordRow?_isNone_iff, Option.isNone_iff_eq_none]
        rw [Option.isSome_iff_ne_none] at hid
        exact hid
      simp only [false_iff]
      exact fun h ↦ this h.1
    · have hfree : ∀ r ∈ t.records, r.id ≠ .intact candidate := by
        rw [← recordRow?_isNone_iff]
        simpa using hid
      simp only [Except.ok.injEq, Prod.mk.injEq]
      exact ⟨fun h ↦ ⟨hfree, h.1.symm, h.2.symm⟩, fun h ↦ ⟨h.2.1.symm, h.2.2.symm⟩⟩
  · simp only [Option.some.injEq, reduceCtorEq, false_and, or_false, Except.ok.injEq,
      Prod.mk.injEq]
    exact ⟨fun h ↦ ⟨row, rfl, h.1.symm, h.2.symm⟩, by rintro ⟨_, rfl, rfl, rfl⟩; exact ⟨rfl, rfl⟩⟩

theorem recordOf?_eq_none_iff {key : RecordKey} :
    t.recordOf? key = none ↔ ∀ r ∈ t.records, r.key ≠ key := by
  simp [recordOf?]

theorem Wellformed.storeRecord (h : t.Wellformed) {candidate : RecordId} {key : RecordKey}
    {payload : Json} {cell : Cell RecordId}
    (hok : Tables.storeRecord candidate key payload t = .ok (cell, t')) : t'.Wellformed := by
  rcases storeRecord_ok_iff.mp hok with ⟨row, -, -, rfl⟩ | ⟨hkey, hid, -, rfl⟩
  · refine { h with
      recordId_nodup := ?_, recordKey_nodup := ?_
      record_intact := fun r hr ↦ ?_, member_record := fun m hm ↦ ?_ }
    · exact nodup_map_map h.recordId_nodup fun r ↦ repaid_id _ _ r
    · exact nodup_map_map h.recordKey_nodup fun r ↦ repaid_key _ _ r
    · obtain ⟨r₀, hr₀, rfl⟩ := List.mem_map.mp hr
      rw [repaid_id]
      exact h.record_intact r₀ hr₀
    · obtain ⟨r, hr, hrid⟩ := h.member_record m hm
      exact ⟨_, List.mem_map_of_mem hr, (repaid_id _ _ r).trans hrid⟩
  · refine { h with
      recordId_nodup := ?_, recordKey_nodup := ?_
      record_intact := fun r hr ↦ ?_, member_record := fun m hm ↦ ?_ }
    · exact nodup_map_concat h.recordId_nodup hid
    · exact nodup_map_concat h.recordKey_nodup (recordOf?_eq_none_iff.mp hkey)
    · rcases List.mem_append.mp hr with hr | hr
      · exact h.record_intact r hr
      · exact ⟨candidate, by rw [List.mem_singleton.mp hr]⟩
    · obtain ⟨r, hr, hrid⟩ := h.member_record m hm
      exact ⟨r, List.mem_append_left _ hr, hrid⟩

theorem Wellformed.removeRecords (h : t.Wellformed) (fits : RecordRow → Bool) :
    (t.removeRecords fits).Wellformed := by
  refine { h with
    recordId_nodup := h.recordId_nodup.sublist (List.filter_sublist.map _)
    recordKey_nodup := h.recordKey_nodup.sublist (List.filter_sublist.map _)
    record_intact := fun r hr ↦ h.record_intact r (List.mem_of_mem_filter hr)
    member_nodup := h.member_nodup.sublist (List.filter_sublist.map _)
    member_intact := fun m hm ↦ h.member_intact m (List.mem_of_mem_filter hm)
    member_config := fun m hm ↦ h.member_config m (List.mem_of_mem_filter hm)
    member_record := fun m hm ↦ ?_ }
  obtain ⟨hm, hkept⟩ := List.mem_filter.mp hm
  obtain ⟨r, hr, hrid⟩ := h.member_record m hm
  refine ⟨r, List.mem_filter.mpr ⟨hr, ?_⟩, hrid⟩
  simp only [Bool.not_eq_true', List.any_eq_false, Bool.and_eq_true, decide_eq_true_eq] at hkept
  simpa using fun hfits ↦ hkept r hr ⟨hrid, hfits⟩

theorem Wellformed.deleteRecords (h : t.Wellformed) (fits : RecordRow → Bool) (now : Datestamp) :
    (t.deleteRecords fits now).2.Wellformed :=
  (h.advanceWhere _ now).removeRecords fits

end Tables

end RecordLinkage
