import RecordLinkage.Proofs.History.Runs

/-!
# What an ingester is set up with

An ingester looks up once which match keys are computed whenever a record is stored. These are all
match keys that are not updated by hand only, each once. What becomes of match keys later is not
asked any more.
-/

namespace RecordLinkage

open Work

namespace Tables

variable {t : Tables} {d : String} {all : List MatchKey}

/-- A match key is computed whenever a record is stored. -/
def Automatic (t : Tables) (d : String) : Prop :=
  ∃ row ∈ t.matchKeys, row.id = d ∧ row.update ≠ MatchKey.manual

/-- A match key is updated by hand only. -/
def Manual (t : Tables) (d : String) : Prop :=
  ∃ row ∈ t.matchKeys, row.id = d ∧ row.update = MatchKey.manual

theorem Wellformed.not_automatic (h : t.Wellformed) (hd : t.Manual d) : ¬t.Automatic d := by
  obtain ⟨row, hrow, rfl, hmanual⟩ := hd
  rintro ⟨row', hrow', hid, hauto⟩
  rw [List.inj_on_of_nodup_map h.matchKey_nodup hrow' hrow hid] at hauto
  exact hauto hmanual

theorem matchKeyRow_read {row : MatchKeyRow} {k : MatchKey} (h : row.read = .ok k) :
    k.id = row.id ∧ k.update = row.update := by
  rw [MatchKeyRow.read] at h
  split at h
  · rw [← Except.ok.inj h]
    exact ⟨rfl, rfl⟩
  · cases h

private theorem names_of_read {rows : List MatchKeyRow}
    (h : List.Forall₂ (fun row k ↦ row.read = .ok k) rows all) :
    all.map (fun k ↦ (k.id, k.update)) = rows.map fun row ↦ (row.id, row.update) := by
  induction h with
  | nil => rfl
  | cons hrow _ ih =>
    obtain ⟨hid, hupdate⟩ := matchKeyRow_read hrow
    rw [List.map_cons, List.map_cons, ih, hid, hupdate]

/-- The list of match keys has the names and updates of the rows. -/
theorem listMatchKeys_perm (h : t.listMatchKeys = .ok all) :
    (all.map fun k ↦ (k.id, k.update)).Perm (t.matchKeys.map fun row ↦ (row.id, row.update)) := by
  rw [names_of_read (mapM_ok_iff.mp h)]
  exact (Sorted.sortBy_perm _).map _

theorem automatic_iff (h : t.listMatchKeys = .ok all) :
    t.Automatic d ↔ ∃ k ∈ all.filter MatchKey.isAutomatic, k.id = d := by
  have hmem : ∀ update, (∃ row ∈ t.matchKeys, row.id = d ∧ row.update = update) ↔
      ∃ k ∈ all, k.id = d ∧ k.update = update := by
    intro update
    have hpair := (listMatchKeys_perm h).mem_iff (a := (d, update))
    simpa only [List.mem_map, Prod.mk.injEq] using hpair.symm
  simp only [Automatic, List.mem_filter, MatchKey.isAutomatic, decide_eq_true_eq]
  constructor
  · rintro ⟨row, hrow, hid, hauto⟩
    obtain ⟨k, hk, hkid, hupdate⟩ := (hmem row.update).mp ⟨row, hrow, hid, rfl⟩
    exact ⟨k, ⟨hk, hupdate ▸ hauto⟩, hkid⟩
  · rintro ⟨k, ⟨hk, hauto⟩, hid⟩
    obtain ⟨row, hrow, hrowid, hupdate⟩ := (hmem k.update).mpr ⟨k, hk, hid, rfl⟩
    exact ⟨row, hrow, hrowid, hupdate ▸ hauto⟩

theorem Wellformed.names_nodup (ht : t.Wellformed) (h : t.listMatchKeys = .ok all) :
    (all.map MatchKey.id).Nodup := by
  have hperm := (listMatchKeys_perm h).map Prod.fst
  rw [List.map_map, List.map_map] at hperm
  exact hperm.nodup_iff.mpr ht.matchKey_nodup

end Tables

namespace Ingester

variable {access : Access} {tenant : TenantId} {request : IngestRequest}
  {settings : IngestSettings} {i : Ingester} {s s' : World}

private theorem go_methods {keys : List MatchKey} {found : List (MatchKey × Method)}
    (hgo : go (keys.mapM fun k ↦ do
      let kept ← Work.method tenant k
      return (k, kept.method)) s = (.ok found, s')) : found.map Prod.fst = keys := by
  induction keys generalizing s s' found with
  | nil =>
    rw [List.mapM_nil, go_pure] at hgo
    rw [← Except.ok.inj (Prod.mk.inj hgo).1, List.map_nil]
  | cons k rest ih =>
    obtain ⟨p, s₁, found', hfirst, hrest, rfl⟩ := go_mapM_cons_ok.mp hgo
    obtain ⟨kept, s₂, -, hp⟩ := go_bind_ok.mp hfirst
    rw [List.map_cons, ih hrest, ← Except.ok.inj (Prod.mk.inj hp).1]

/-- An ingester is set up with the match keys that are computed automatically. -/
theorem create_ok (hgo : (create access tenant request settings).go s = (.ok i, s')) :
    s'.tables = s.tables ∧ ∃ all, s.tables.listMatchKeys = .ok all ∧
      i.keys.map Prod.fst = all.filter MatchKey.isAutomatic := by
  have hidle : s'.tables = s.tables := by
    have hL : Lasting fun s s' : World ↦ s'.tables = s.tables :=
      ⟨fun h h' ↦ h'.trans h, fun h _ ↦ h⟩
    exact (respects_create hL access tenant request settings).achieves hgo
  obtain ⟨path, s₁, hpath, hgo⟩ := go_bind_ok.mp hgo
  rw [go_ofExcept] at hpath
  obtain ⟨-, rfl⟩ := Prod.mk.inj hpath
  obtain ⟨all, s₂, hall, hgo⟩ := go_bind_ok.mp hgo
  rw [go_query, Prod.mk.injEq] at hall
  obtain ⟨hall, rfl⟩ := hall
  obtain ⟨keys, s₃, hkeys, hgo⟩ := go_bind_ok.mp hgo
  refine ⟨hidle, all, hall, ?_⟩
  rw [← Except.ok.inj (Prod.mk.inj hgo).1]
  exact go_methods hkeys

/-- They are all match keys that are not updated by hand only. -/
theorem mem_matchKeys_iff (hgo : (create access tenant request settings).go s = (.ok i, s'))
    {d : String} : d ∈ i.matchKeys ↔ s.tables.Automatic d := by
  obtain ⟨-, all, hall, hkeys⟩ := create_ok hgo
  rw [Tables.automatic_iff hall, ← hkeys, matchKeys]
  simp only [List.mem_map, exists_exists_and_eq_and]

/-- Each of them is there once. -/
theorem matchKeys_nodup (hform : s.tables.Wellformed)
    (hgo : (create access tenant request settings).go s = (.ok i, s')) : i.matchKeys.Nodup := by
  obtain ⟨-, all, hall, hkeys⟩ := create_ok hgo
  have hnames : i.matchKeys = (i.keys.map Prod.fst).map MatchKey.id := by
    rw [List.map_map]
    rfl
  rw [hnames, hkeys]
  exact (hform.names_nodup hall).sublist (List.filter_sublist.map _)

end Ingester

end RecordLinkage
