import RecordLinkage.Proofs.Clustering.Skipping
import RecordLinkage.Proofs.History.Apart
import RecordLinkage.Proofs.MatchKey.Cache

/-!
# Computing a match key anew, record by record

Where every payload can be read, computing a match key anew does not fail: each record is assigned
once, with the set of its payload, in the order of identifiers. So it is a history of the match key
in which every stored record occurs, the last one first. A payload that cannot be read ends the
whole, and nothing has changed then.

Failures of single records are counted, and one that is assigned under a match key that is there,
while identifiers last, does not fail. Pages do not show.
-/

namespace RecordLinkage.Clustering

open Tables Work

variable {config : String} {s s' s'' : World} {H H' : List (RecordId × List String)}

/-- A stretch of a history in which records are assigned, and nothing else happens. -/
structure Walked (config : String) (s : World) (H : List (RecordId × List String)) (s' : World) :
    Prop where
  orderly : s'.Orderly
  course : Course config s H s'
  records : s'.tables.records = s.tables.records
  matchKeys : s'.tables.matchKeys = s.tables.matchKeys

namespace Walked

theorem nil (ho : s.Orderly) : Walked config s [] s := ⟨ho, .start, rfl, rfl⟩

theorem trans (h : Walked config s H s') (h' : Walked config s' H' s'') :
    Walked config s (H' ++ H) s'' where
  orderly := h'.orderly
  course := h.course.trans h'.course
  records := h'.records.trans h.records
  matchKeys := h'.matchKeys.trans h.matchKeys

/-- A walk may begin a little earlier, while nothing happens to the tables. -/
theorem of_idle (h : Walked config s' H s'') (ho : s.Orderly) (htables : s'.tables = s.tables)
    (hids : s'.ids = s.ids) (hb : s.ids.next ≤ idLimit) : Walked config s H s'' where
  orderly := h.orderly
  course := by
    have happart := (lasting_apart config).idle htables (hids ▸ Nat.le_refl _)
    have hspare := (happart.2 (hids ▸ hb) ho).2
    have hcourse := (Course.start.spare hspare).trans h.course
    rwa [List.append_nil] at hcourse
  records := h.records.trans (by rw [htables])
  matchKeys := h.matchKeys.trans (by rw [htables])

end Walked

/-- Assignments one after the other, the last one first. -/
theorem walked_of_assignEach {recipe : Recipe} {entries : List (RecordId × List String)}
    (ho : s.Orderly) (hgo : (assignEach recipe entries).go s = (.ok (), s'))
    (hids : s'.ids.next < idLimit) : Walked recipe.config s entries.reverse s' := by
  induction entries generalizing s with
  | nil =>
    obtain ⟨-, rfl⟩ := Prod.mk.inj hgo
    exact .nil ho
  | cons e rest ih =>
    obtain ⟨a, s₁, hassign, hrest⟩ := go_bind_ok.mp hgo
    have hb : s₁.ids.next < idLimit := by
      have hgrows := assignEach_grows recipe rest s₁
      rw [hrest] at hgrows
      exact lt_of_le_of_lt hgrows hids
    have ha := assigned_of_ok ho.form hassign
    have hfirst : Walked recipe.config s [e] s₁ :=
      ⟨((assign_keepsOrder _ _ _ _) hassign).2 hb.le ho,
        .assign .start ha (ho.record_lt _ ha.stores) (lt_of_le_of_lt ha.ids_le hb), ha.records,
        ha.matchKeys⟩
    rw [List.reverse_cons]
    exact hfirst.trans (ih hfirst.orderly hrest)

/-! ## The whole -/

theorem hasMatchKey_of_matchKey? {t : Tables} {k : MatchKey}
    (h : t.matchKey? config = .ok (some k)) : t.hasMatchKey config = true := by
  rw [matchKey?] at h
  rcases hrow : t.matchKeys.find? (fun r ↦ r.id = config) with - | row
  · rw [hrow] at h
    cases h
  · exact hasMatchKey_iff.mpr
      ⟨row, List.mem_of_find?_eq_some hrow, by simpa using List.find?_some hrow⟩

/-- When nothing stands in the way, a match key is computed anew with the method at hand. -/
theorem rebuild_eq {k : MatchKey} {kept : MethodInstance} {handle : Handle}
    (hkey : s.tables.matchKey? config = .ok (some k))
    (hkept : (s.cache.get handle.tenant k).1 = .ok kept) (limit : ℕ) (now : Datestamp) : ∃ s₁,
      s₁.tables = s.tables ∧ s₁.ids = s.ids ∧
      (rebuild .free handle config limit now).go s
        = (atomically (reindexAll ⟨now, config, kept.method, limit⟩ handle.pageSize) >>= fun stats ↦
            pure (some stats)).go s₁ := by
  refine ⟨{ s with cache := (s.cache.get handle.tenant k).2 }, rfl, rfl, ?_⟩
  rw [rebuild, go_bind, go_query, hkey]
  dsimp only
  rw [go_bind, go_method, hkept, matchKey?_id hkey]
  rfl

/-- The method at hand is the one that the match key asks for. -/
theorem exists_kept {k : MatchKey} {m : Method} (hmade : s.cache.Made)
    (hmethod : k.createMethod = .ok m) (tenant : TenantId) :
    ∃ kept, (s.cache.get tenant k).1 = .ok kept ∧ kept.method = m := by
  have hget := hmade.get_method tenant k
  rw [hmethod] at hget
  rcases hkept : (s.cache.get tenant k).1 with fault | kept
  · rw [hkept] at hget
    cases hget
  · rw [hkept] at hget
    exact ⟨kept, rfl, Except.ok.inj hget⟩

section Whole

variable {k : MatchKey} {m : Method} {kept : MethodInstance} {f : Json → List String}
  {read : RecordRow → Record} {handle : Handle} {limit : ℕ} {now : Datestamp} (ho : s.Orderly)
  (hkey : s.tables.matchKey? config = .ok (some k)) (hsize : 0 < handle.pageSize)
  (hids : ((rebuild .free handle config limit now).go s).2.ids.next < idLimit)

include ho hkey hids

section Kept

variable (hkept : (s.cache.get handle.tenant k).1 = .ok kept)

include hkept

/-- Computing a match key anew begins with the tables as they are. -/
theorem exists_beginning : ∃ s₁, s₁.tables = s.tables ∧ s₁.ids = s.ids ∧ s₁.Orderly ∧
    s₁.tables.hasMatchKey config = true ∧ s.ids.next ≤ idLimit ∧
    ((reindexAll ⟨now, config, kept.method, limit⟩ handle.pageSize).go s₁).2.ids.next < idLimit ∧
    (rebuild .free handle config limit now).go s
      = (atomically (reindexAll ⟨now, config, kept.method, limit⟩ handle.pageSize) >>= fun stats ↦
          pure (some stats)).go s₁ := by
  obtain ⟨s₁, htables, hsupply, heq⟩ := rebuild_eq hkey hkept limit now
  have hgrows : Grows s ((rebuild .free handle config limit now).go s).2 :=
    rebuild_grows .free handle config limit now s
  have hb : s.ids.next ≤ idLimit := (lt_of_le_of_lt hgrows hids).le
  refine ⟨s₁, htables, hsupply, ?_, ?_, hb, ?_, heq⟩
  · exact (lasting_keepsOrder.idle htables (hsupply ▸ le_rfl)).2 (hsupply ▸ hb) ho
  · rw [htables]
    exact hasMatchKey_of_matchKey? hkey
  · refine lt_of_le_of_lt ?_ hids
    rw [heq, go_bind, go_atomically]
    rcases (reindexAll ⟨now, config, kept.method, limit⟩ handle.pageSize).go s₁ with
      ⟨e | stats, s'⟩
    · exact le_rfl
    · exact le_rfl

include hsize

/-- A payload that cannot be read ends the whole. -/
theorem go_rebuild_unreadable (hreadable : ¬∀ row ∈ s.tables.records, Readable row) : ∃ s',
    (rebuild .free handle config limit now).go s = (.error .invalidPayload, s') ∧
    s'.tables = s.tables := by
  obtain ⟨s₁, htables, -, ho₁, -, -, -, heq⟩ := exists_beginning ho hkey hids hkept
  rw [← htables] at hreadable ⊢
  obtain ⟨s', hgo, hs'⟩ :=
    go_reindexAll_error ⟨now, config, kept.method, limit⟩ ho₁.form hreadable hsize
  refine ⟨s', ?_, hs'⟩
  rw [heq, go_bind, hgo]

variable (hread : ∀ row ∈ s.tables.records, Tells row (read row))

include hread

/-- **Computing a match key anew assigns every record once that the method does not refuse.** -/
theorem go_rebuild_readable (hreadable : ∀ row ∈ s.tables.records, Readable row) :
    let recipe : Recipe := ⟨now, config, kept.method, limit⟩
    let records := (ascending s.tables.records).map read
    ∃ s₁ s', s₁.tables = s.tables ∧
      (rebuild .free handle config limit now).go s
        = (.ok (some ⟨s.tables.records.length, records.countP recipe.refuses⟩), s') ∧
      (assignEach recipe (recipe.accepted records)).go s₁ = (.ok (), s') ∧
      Walked config s (recipe.accepted records).reverse s' := by
  intro recipe records
  obtain ⟨s₁, htables, hsupply, ho₁, hkey₁, hb, hids₁, heq⟩ := exists_beginning ho hkey hids hkept
  have hread₁ : ∀ row ∈ s₁.tables.records, Tells row (read row) := htables ▸ hread
  have hall := go_allPages recipe ho₁.form hread₁ (htables ▸ hreadable) hsize (Nat.lt_succ_self _)
  rw [← go_reindexAll, htables] at hall
  rw [hall] at hids₁
  obtain ⟨s', hgo, hassign⟩ := go_reindexRecords_skip records ⟨0, 0⟩ ho₁ hkey₁
    (htables ▸ stores_of_tells hread) hids₁
  rw [List.length_map, (ascending_perm _).length_eq, Nat.zero_add, Nat.zero_add] at hgo
  rw [hgo] at hids₁
  refine ⟨s₁, s', htables, ?_, hassign,
    (walked_of_assignEach ho₁ hassign hids₁).of_idle ho htables hsupply hb⟩
  rw [heq, go_bind, go_atomically_ok.mpr (hall.trans hgo)]
  rfl

end Kept

variable (hmade : s.cache.Made) (hmethod : k.createMethod = .ok m)

include hsize hmade hmethod

/-- **With a payload that cannot be read nothing is computed.** -/
theorem go_rebuild_error (hreadable : ¬∀ row ∈ s.tables.records, Readable row) : ∃ s',
    (rebuild .free handle config limit now).go s = (.error .invalidPayload, s') ∧
    s'.tables = s.tables := by
  obtain ⟨kept, hkept, -⟩ := exists_kept hmade hmethod handle.tenant
  exact go_rebuild_unreadable ho hkey hsize hids hkept hreadable

variable (hf : ∀ payload, m.matchValues payload = .ok (f payload))
  (hread : ∀ row ∈ s.tables.records, Tells row (read row))

include hf hread

/-- **Computing a match key anew assigns every record once, and none fails**, if the method refuses
nothing. -/
theorem go_rebuild (hreadable : ∀ row ∈ s.tables.records, Readable row) :
    let entries := (ascending s.tables.records).map fun row ↦
      ((read row).id, truncate limit (f (read row).payload))
    ∃ s₁ s', s₁.tables = s.tables ∧
      (rebuild .free handle config limit now).go s
        = (.ok (some ⟨s.tables.records.length, 0⟩), s') ∧
      (assignEach ⟨now, config, m, limit⟩ entries).go s₁ = (.ok (), s') ∧
      Walked config s entries.reverse s' := by
  intro entries
  obtain ⟨kept, hkept, rfl⟩ := exists_kept hmade hmethod handle.tenant
  let recipe : Recipe := ⟨now, config, kept.method, limit⟩
  have haccepted : recipe.accepted ((ascending s.tables.records).map read) = entries := by
    rw [accepted_eq_map hf, List.map_map]
    rfl
  have hnone : ((ascending s.tables.records).map read).countP recipe.refuses = 0 :=
    countP_refuses_eq_zero hf _
  obtain ⟨s₁, s', htables, hgo, hassign, hwalked⟩ :=
    go_rebuild_readable ho hkey hsize hids hkept hread hreadable
  rw [hnone] at hgo
  rw [haccepted] at hassign hwalked
  exact ⟨s₁, s', htables, hgo, hassign, hwalked⟩

end Whole

end RecordLinkage.Clustering
