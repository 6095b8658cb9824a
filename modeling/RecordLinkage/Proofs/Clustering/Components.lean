import RecordLinkage.Proofs.Clustering.Renaming
import RecordLinkage.Proofs.Clustering.UnionFind

/-!
# Connected components of the stored records

A clustering that knows nothing of the past: every stored record has one set of values, and two
records belong together when a chain of records leads from one to the other in which neighbours
share a value. `Components` says that this is how a match key partitions the records, and that its
clusters own the values of their members and nothing else.

Components leave open what the clusters are called, and nothing more: two clusterings of the same
sets differ by a renaming of clusters.

A history that starts from nothing and in which every stored record occurs once ends in components.
The chains of `Partition` lead from value to value, through sets; seen from the sets they lead from
record to record, through values.
-/

namespace RecordLinkage.Clustering

open Relation Tables

variable {config : String} {t t' : Tables} {sets sets' : RecordId → List String → Prop}
  {q r : RecordId} {V W : List String} {v w : String} {x y : ClusterId}

/-- The sets of two records have a value in common. -/
def Overlaps (sets : RecordId → List String → Prop) (q r : RecordId) : Prop :=
  ∃ V W v, sets q V ∧ sets r W ∧ v ∈ V ∧ v ∈ W

/-- **A match key partitions the stored records into connected components.** -/
structure Components (config : String) (sets : RecordId → List String → Prop) (t : Tables) :
    Prop where
  /-- The owned values are those of the stored records. -/
  owned : ∀ v, (∃ x, t.Owns config x v) ↔ ∃ r V, sets r V ∧ v ∈ V
  /-- Who has a set is stored, and has no other set. -/
  stored : ∀ {r V}, sets r V → t.Stores r ∧ ∀ W, sets r W → W = V
  /-- A stored record has a set and exactly one membership. -/
  member : ∀ r, t.Stores r → ∃ V x, sets r V ∧
    t.members.filter (fun m ↦ m.record = r && m.config = config) = [⟨r, config, .intact x⟩]
  /-- A record is in the cluster that owns its values. -/
  values : ∀ {r V x}, sets r V → t.Holds config x r → ∀ v ∈ V, t.Owns config x v
  /-- Records with values share a cluster when a chain of overlapping sets links them. -/
  together : ∀ {q r V W x y}, sets q V → V ≠ [] → sets r W → W ≠ [] → t.Holds config x q →
    t.Holds config y r → (x = y ↔ TransGen (Overlaps sets) q r)
  /-- A record without values is alone in a cluster that owns nothing. -/
  alone : ∀ {q x}, sets q [] → t.Holds config x q →
    (∀ v, ¬t.Owns config x v) ∧ ∀ r, t.Holds config x r → r = q

/-! ## Components determine the clustering -/

namespace Components

variable (h : Components config sets t)

include h

theorem exists_holds (hr : t.Stores r) : ∃ V x, sets r V ∧ t.Holds config x r := by
  obtain ⟨V, x, hV, hrow⟩ := h.member r hr
  have hmem : (⟨r, config, .intact x⟩ : MemberRow) ∈
      t.members.filter fun m ↦ m.record = r && m.config = config := by
    rw [hrow]
    exact List.mem_singleton_self _
  exact ⟨V, x, hV, List.mem_of_mem_filter hmem⟩

/-- No chain begins or ends at a record without values. -/
theorem ne_nil_of_chain (hchain : TransGen (Overlaps sets) q r) (hV : sets q V) (hW : sets r W) :
    V ≠ [] ∧ W ≠ [] := by
  obtain ⟨-, ⟨V', -, v, hV', -, hv, -⟩, -⟩ := TransGen.head'_iff.mp hchain
  obtain ⟨-, -, ⟨-, W', w, -, hW', -, hw⟩⟩ := TransGen.tail'_iff.mp hchain
  rw [(h.stored hV).2 V' hV'] at hv
  rw [(h.stored hW).2 W' hW'] at hw
  exact ⟨List.ne_nil_of_mem hv, List.ne_nil_of_mem hw⟩

/-- Two records share a cluster when they are the same record or a chain links them. -/
theorem share_iff (hform : t.Wellformed) (hx : t.Holds config x q) (hy : t.Holds config y r) :
    x = y ↔ q = r ∨ TransGen (Overlaps sets) q r := by
  obtain ⟨V, -, hV, -⟩ := h.exists_holds (hform.stores_of_holds hx)
  obtain ⟨W, -, hW, -⟩ := h.exists_holds (hform.stores_of_holds hy)
  constructor
  · rintro rfl
    by_cases hVW : V ≠ [] ∧ W ≠ []
    · exact Or.inr ((h.together hV hVW.1 hW hVW.2 hx hy).mp rfl)
    · -- One of the two is alone, so it is the other one.
      rcases not_and_or.mp hVW with hnil | hnil
      · rw [not_not.mp hnil] at hV
        exact Or.inl ((h.alone hV hx).2 r hy).symm
      · rw [not_not.mp hnil] at hW
        exact Or.inl ((h.alone hW hy).2 q hx)
  · rintro (rfl | hchain)
    · exact hform.holds_unique hx hy
    · obtain ⟨hVne, hWne⟩ := h.ne_nil_of_chain hchain hV hW
      exact (h.together hV hVne hW hWne hx hy).mpr hchain

/-- An owned value has a record that has it, in the cluster that owns it. -/
theorem exists_source (hform : t.Wellformed) (hx : t.Owns config x v) :
    ∃ r V, sets r V ∧ v ∈ V ∧ t.Holds config x r := by
  obtain ⟨r, V, hV, hv⟩ := (h.owned v).mp ⟨x, hx⟩
  obtain ⟨-, y, -, hy⟩ := h.exists_holds (h.stored hV).1
  rw [hform.owns_unique hx (h.values hV hy v hv)]
  exact ⟨r, V, hV, hv, hy⟩

/-- What is linked to a record is together in every clustering of the same sets. -/
theorem shares_of_shares (h' : Components config sets t') (hform : t.Wellformed)
    (hform' : t'.Wellformed) {x' y' : ClusterId} (hx : t.Holds config x q)
    (hy : t.Holds config x r) (hx' : t'.Holds config x' q) (hy' : t'.Holds config y' r) :
    x' = y' :=
  (h'.share_iff hform' hx' hy').mpr ((h.share_iff hform hx hy).mp rfl)

/-- **Two clusterings of the same sets differ by the names of their clusters.** -/
theorem exists_renaming (h' : Components config sets t') (hform : t.Wellformed)
    (hform' : t'.Wellformed) : ∃ κ : Equiv.Perm ClusterId,
      (∀ x v, t.Owns config x v ↔ t'.Owns config (κ x) v) ∧
      ∀ x r, t.Holds config x r ↔ t'.Holds config (κ x) r := by
  -- Clusters correspond when they have a member in common.
  obtain ⟨κ, hκ⟩ : ∃ κ : Equiv.Perm ClusterId, ∀ x y,
      (∃ r, t.Holds config x r ∧ t'.Holds config y r) → κ x = y := by
    refine exists_perm_of_one_to_one ?_ ?_
    · rintro x y y' ⟨q, hx, hy⟩ ⟨r, hx', hy'⟩
      exact h.shares_of_shares h' hform hform' hx hx' hy hy'
    · rintro x x' y ⟨q, hx, hy⟩ ⟨r, hx', hy'⟩
      exact h'.shares_of_shares h hform' hform hy hy' hx hx'
  have hstores : ∀ r, t.Stores r ↔ t'.Stores r := by
    intro r
    constructor
    · intro hr
      obtain ⟨V, -, hV, -⟩ := h.exists_holds hr
      exact (h'.stored hV).1
    · intro hr
      obtain ⟨V, -, hV, -⟩ := h'.exists_holds hr
      exact (h.stored hV).1
  have hholds : ∀ x r, t.Holds config x r ↔ t'.Holds config (κ x) r := by
    intro x r
    constructor
    · intro hx
      obtain ⟨-, y, -, hy⟩ := h'.exists_holds ((hstores r).mp (hform.stores_of_holds hx))
      rwa [hκ x y ⟨r, hx, hy⟩]
    · intro hy
      obtain ⟨-, x₀, -, hx₀⟩ := h.exists_holds ((hstores r).mpr (hform'.stores_of_holds hy))
      rwa [← κ.injective (hκ x₀ (κ x) ⟨r, hx₀, hy⟩)]
  refine ⟨κ, fun x v ↦ ⟨fun hx ↦ ?_, fun hy ↦ ?_⟩, hholds⟩
  · obtain ⟨r, V, hV, hv, hr⟩ := h.exists_source hform hx
    exact h'.values hV ((hholds x r).mp hr) v hv
  · obtain ⟨r, V, hV, hv, hr⟩ := h'.exists_source hform' hy
    exact h.values hV ((hholds x r).mpr hr) v hv

end Components

/-! ## Histories that end in components -/

section History

variable {H : List (RecordId × List String)} {s₀ s : World}

theorem lookup_eq_some_iff_mem (hnodup : (H.map Prod.fst).Nodup) :
    H.lookup r = some V ↔ (r, V) ∈ H := by
  refine ⟨mem_of_lookup, fun hmem ↦ ?_⟩
  obtain ⟨H₁, H₂, rfl⟩ := List.append_of_mem hmem
  refine List.lookup_eq_some_iff.mpr ⟨H₁, H₂, rfl, fun e he ↦ ?_⟩
  rw [List.map_append, List.map_cons] at hnodup
  have hne : e.1 ≠ r := fun heq ↦
    List.disjoint_of_nodup_append hnodup (List.mem_map_of_mem he) (heq ▸ .head _)
  simpa using hne.symm

variable (hmem : ∀ r V, (r, V) ∈ H ↔ sets r V)

include hmem

/-- A chain of values through sets is a chain of records through values. -/
theorem chain_of_chained (hchain : Chained H v w) (hV : sets q V) (hv : v ∈ V) (hW : sets r W)
    (hw : w ∈ W) : TransGen (Overlaps sets) q r := by
  induction hchain generalizing r W with
  | single h =>
    obtain ⟨⟨p, U⟩, he, hvU, hwU⟩ := h
    have hU := (hmem p U).mp he
    exact .tail (.single ⟨V, U, v, hV, hU, hv, hvU⟩) ⟨U, W, _, hU, hW, hwU, hw⟩
  | tail _ h ih =>
    obtain ⟨⟨p, U⟩, he, huU, hwU⟩ := h
    have hU := (hmem p U).mp he
    exact .tail (ih hU huU) ⟨U, W, _, hU, hW, hwU, hw⟩

theorem chained_of_chain (hone : ∀ r V W, sets r V → sets r W → V = W)
    (hchain : TransGen (Overlaps sets) q r) (hV : sets q V) (hv : v ∈ V) (hW : sets r W)
    (hw : w ∈ W) : Chained H v w := by
  induction hchain generalizing W w with
  | single h =>
    obtain ⟨V', W', u, hV', hW', hu, hu'⟩ := h
    obtain rfl := hone _ _ _ hV hV'
    obtain rfl := hone _ _ _ hW hW'
    exact .tail (.single ⟨_, (hmem _ _).mpr hV, hv, hu⟩) ⟨_, (hmem _ _).mpr hW, hu', hw⟩
  | tail _ h ih =>
    obtain ⟨U, W', u, hU, hW', hu, hu'⟩ := h
    obtain rfl := hone _ _ _ hW hW'
    exact .tail (ih hU hu) ⟨_, (hmem _ _).mpr hW, hu', hw⟩

/-- **A history from nothing in which every stored record occurs once ends in components.** -/
theorem components_of_tracks (hno : ∀ x v, ¬s₀.tables.Owns config x v)
    (hnodup : (H.map Prod.fst).Nodup) (hstores : ∀ r, s.tables.Stores r ↔ ∃ V, sets r V)
    (hform : s.tables.Wellformed) (htracks : Tracks config s₀ H s) :
    Components config sets s.tables := by
  have hlookup : ∀ {r V}, sets r V → H.lookup r = some V := fun hV ↦
    (lookup_eq_some_iff_mem hnodup).mpr ((hmem _ _).mpr hV)
  have hone : ∀ r V W, sets r V → sets r W → V = W := fun r V W hV hW ↦
    Option.some.inj ((hlookup hV).symm.trans (hlookup hW))
  refine ⟨fun v ↦ ?_, fun {r V} hV ↦ ⟨(hstores r).mpr ⟨V, hV⟩, fun W hW ↦ hone r W V hW hV⟩,
    fun r hr ↦ ?_, fun hV hx ↦ htracks.latest hx (hlookup hV), ?_, ?_⟩
  · rw [htracks.owned v, Named, or_iff_right (not_exists.mpr fun x ↦ hno x v), Prod.exists]
    simp only [hmem]
  · obtain ⟨V, hV⟩ := (hstores r).mp hr
    obtain ⟨x, hx⟩ := htracks.present hr (Or.inl (by rw [hlookup hV]; rfl))
    exact ⟨V, x, hV, hform.filter_members hx⟩
  · intro q r V W x y hV hVne hW hWne hx hy
    obtain ⟨v, hv⟩ := List.exists_mem_of_ne_nil V hVne
    obtain ⟨w, hw⟩ := List.exists_mem_of_ne_nil W hWne
    rw [htracks.linked (htracks.latest hx (hlookup hV) v hv) (htracks.latest hy (hlookup hW) w hw),
      linked_iff_chained hno]
    exact ⟨fun h ↦ chain_of_chained hmem h hV hv hW hw,
      fun h ↦ chained_of_chain hmem hone h hV hv hW hw⟩
  · intro q x hq hx
    exact (htracks.alone hx (hlookup hq)).2

end History

end RecordLinkage.Clustering
