import Mathlib.Logic.Equiv.Fintype
import RecordLinkage.Proofs.Clustering.Partition
import RecordLinkage.Proofs.History.Sound

/-!
# One partition under two names

Two histories of a match key that begin in the same world and assign the same sets end with the same
partition, whatever came first. Only new names may differ, those of records and those of clusters. A
cluster that was there before keeps its identifier in both, because the oldest cluster wins.

`Twins` are two such histories, with the records of the one renamed to those of the other. One half
of the argument leads from a cluster of the first to a cluster of the second that has all its values
and members; since twins are symmetric, the way back leads to the same cluster. Over all match keys
together that is a one-to-one relation between clusters, and such a relation is part of a
permutation, as there are finitely many identifiers.
-/

namespace RecordLinkage.Clustering

open Tables

/-! ## Renamings -/

/-- A one-to-one relation on finitely many names is part of a permutation. -/
theorem exists_perm_of_one_to_one {α : Type} [Finite α] {M : α → α → Prop}
    (hright : ∀ x y y', M x y → M x y' → y = y') (hleft : ∀ x x' y, M x y → M x' y → x = x') :
    ∃ κ : Equiv.Perm α, ∀ x y, M x y → κ x = y := by
  choose f hf using fun x : {x // ∃ y, M x y} ↦ x.2
  have hinj : Function.Injective f := by
    intro a b hab
    have hb := hf b
    rw [← hab] at hb
    exact Subtype.ext (hleft _ _ _ (hf a) hb)
  obtain ⟨κ, hκ⟩ := Equiv.Perm.exists_extending_pair Subtype.val f Subtype.val_injective hinj
  refine ⟨κ, fun x y h ↦ ?_⟩
  exact (hκ ⟨x, y, h⟩).trans (hright _ _ _ (hf ⟨x, y, h⟩) h)

instance : Finite Uuid :=
  Finite.of_injective Uuid.value fun _ _ h ↦ Uuid.toNat_injective (congrArg Fin.val h)

instance : Finite ClusterId :=
  Finite.of_injective ClusterId.uuid fun _ _ h ↦ ClusterId.toNat_injective (congrArg Uuid.toNat h)

instance : Finite RecordId :=
  Finite.of_injective RecordId.uuid fun _ _ h ↦ RecordId.toNat_injective (congrArg Uuid.toNat h)

/-! ## Twins -/

variable {ρ : Equiv.Perm RecordId} {config c : String} {s₀ s₁ s₂ : World}
  {H₁ H₂ : List (RecordId × List String)} {x y : ClusterId} {v u : String} {q : RecordId}

/-- Two histories of a match key that assign the same sets. Records that were there before have the
same name in both. -/
structure Twins (ρ : Equiv.Perm RecordId) (config : String) (s₀ : World)
    (H₁ : List (RecordId × List String)) (s₁ : World)
    (H₂ : List (RecordId × List String)) (s₂ : World) : Prop where
  form₀ : s₀.tables.Wellformed
  form₁ : s₁.tables.Wellformed
  form₂ : s₂.tables.Wellformed
  numbered : Numbered config s₀
  first : Tracks config s₀ H₁ s₁
  second : Tracks config s₀ H₂ s₂
  sets : ∀ S, (∃ e ∈ H₁, e.2 = S) ↔ ∃ e ∈ H₂, e.2 = S
  stores : ∀ q, s₁.tables.Stores q ↔ s₂.tables.Stores (ρ q)
  lookup : ∀ q, s₁.tables.Stores q → H₂.lookup (ρ q) = H₁.lookup q
  fixes : ∀ q, q.toNat < s₀.ids.next → ρ q = q

/-- A cluster owns or holds something. -/
def Used (t : Tables) (config : String) (x : ClusterId) : Prop :=
  (∃ v, t.Owns config x v) ∨ ∃ q, t.Holds config x q

/-- Two clusters with the same values and members. -/
structure Matches (ρ : Equiv.Perm RecordId) (config : String) (s₀ s₁ s₂ : World)
    (x y : ClusterId) : Prop where
  owns : ∀ v, s₁.tables.Owns config x v ↔ s₂.tables.Owns config y v
  holds : ∀ q, s₁.tables.Holds config x q ↔ s₂.tables.Holds config y (ρ q)
  same : x.toNat < s₀.ids.next ∨ y.toNat < s₀.ids.next → x = y

namespace Twins

variable (h : Twins ρ config s₀ H₁ s₁ H₂ s₂)

include h

theorem symm : Twins ρ.symm config s₀ H₂ s₂ H₁ s₁ where
  form₀ := h.form₀
  form₁ := h.form₂
  form₂ := h.form₁
  numbered := h.numbered
  first := h.second
  second := h.first
  sets S := (h.sets S).symm
  stores q := by rw [h.stores, Equiv.apply_symm_apply]
  lookup q hq := by
    have hq' : s₁.tables.Stores (ρ.symm q) := by rwa [h.stores, Equiv.apply_symm_apply]
    rw [← h.lookup _ hq', Equiv.apply_symm_apply]
  fixes q hq := (Equiv.symm_apply_eq ρ).mpr (h.fixes q hq).symm

theorem linked_iff : Linked s₀.tables config H₁ v u ↔ Linked s₀.tables config H₂ v u :=
  linked_congr h.sets

theorem exists_owner (hx : s₁.tables.Owns config x v) : ∃ y, s₂.tables.Owns config y v := by
  have hnamed : Named s₀.tables config H₁ v := (h.first.owned v).mp ⟨x, hx⟩
  exact (h.second.owned v).mpr (h.linked_iff.mp hnamed.linked).named_left

/-! ### Clusters with values -/

theorem owns_of_owns (hx : s₁.tables.Owns config x v) (hy : s₂.tables.Owns config y v)
    (hu : s₁.tables.Owns config x u) : s₂.tables.Owns config y u := by
  have hlinked := h.linked_iff.mp ((h.first.linked hx hu).mp rfl)
  obtain ⟨z, hz⟩ := h.exists_owner hu
  obtain rfl := (h.second.linked hy hz).mpr hlinked
  exact hz

theorem toNat_le_of_owns (hx : s₁.tables.Owns config x v) (hy : s₂.tables.Owns config y v)
    (hold : x.toNat < s₀.ids.next) : y.toNat ≤ x.toNat := by
  obtain ⟨u, hu, hlinked⟩ := h.first.former hx hold
  exact h.second.oldest hy hu (h.linked_iff.mp hlinked)

/-- The owner of a value is the same cluster if it was there before. -/
theorem eq_of_owns (hx : s₁.tables.Owns config x v) (hy : s₂.tables.Owns config y v)
    (hold : x.toNat < s₀.ids.next) : y = x := by
  have hle := h.toNat_le_of_owns hx hy hold
  have hge := h.symm.toNat_le_of_owns hy hx (hle.trans_lt hold)
  exact ClusterId.toNat_injective (le_antisymm hle hge)

/-- A record that was not assigned was in a cluster before, under the same name. -/
theorem kept_of_holds (hq : s₁.tables.Holds config x q) (hl : H₁.lookup q = none) :
    ∃ x₀ y, s₀.tables.Holds config x₀ q ∧ ρ q = q ∧ s₂.tables.Holds config y q ∧
      ((∃ u, s₀.tables.Owns config x₀ u ∧ s₁.tables.Owns config x u ∧
          s₂.tables.Owns config y u) ∨
        (∀ u, ¬s₀.tables.Owns config x₀ u) ∧ x = x₀ ∧ y = x₀) := by
  obtain ⟨x₀, hx₀, hcase⟩ := h.first.kept hq hl
  have hfix : ρ q = q := h.fixes q (h.numbered.member_lt x₀ q hx₀)
  have hstored := h.form₁.stores_of_holds hq
  have hl₂ : H₂.lookup q = none := by
    have hlookup := h.lookup q hstored
    rwa [hfix, hl] at hlookup
  have hstored₂ : s₂.tables.Stores q := by
    have hs := (h.stores q).mp hstored
    rwa [hfix] at hs
  obtain ⟨y, hy⟩ := h.second.present hstored₂ (Or.inr ⟨x₀, hx₀⟩)
  obtain ⟨y₀, hy₀, hcase₂⟩ := h.second.kept hy hl₂
  obtain rfl := h.form₀.holds_unique hx₀ hy₀
  refine ⟨x₀, y, hx₀, hfix, hy, ?_⟩
  rcases hcase with ⟨u, hu, hxu⟩ | ⟨hno, hx⟩
  · rcases hcase₂ with ⟨w, hw, hyw⟩ | ⟨hno, -⟩
    · -- What the old cluster owned has stayed together.
      obtain ⟨z, hz⟩ := h.exists_owner hxu
      obtain rfl := (h.second.linked hyw hz).mpr (.of_owns hw hu)
      exact Or.inl ⟨u, hu, hxu, hz⟩
    · exact absurd hu (hno u)
  · rcases hcase₂ with ⟨w, hw, -⟩ | ⟨-, hy⟩
    · exact absurd hw (hno w)
    · exact Or.inr ⟨hno, hx, hy⟩

theorem holds_of_owns (hx : s₁.tables.Owns config x v) (hy : s₂.tables.Owns config y v)
    (hq : s₁.tables.Holds config x q) : s₂.tables.Holds config y (ρ q) := by
  rcases hl : H₁.lookup q with - | V
  · obtain ⟨x₀, z, hx₀, hfix, hz, hcase⟩ := h.kept_of_holds hq hl
    rw [hfix]
    rcases hcase with ⟨u, -, hxu, hzu⟩ | ⟨hno, rfl, -⟩
    · rwa [h.form₂.owns_unique (h.owns_of_owns hx hy hxu) hzu]
    · -- A cluster without values does not get any.
      obtain ⟨u, hu, -⟩ := h.first.former hx (h.numbered.holder_lt _ q hx₀)
      exact absurd hu (hno u)
  · have hstored := h.form₁.stores_of_holds hq
    have hl₂ : H₂.lookup (ρ q) = some V := (h.lookup q hstored).trans hl
    rcases V with - | ⟨w, V⟩
    · exact absurd hx ((h.first.alone hq hl).2.1 v)
    · have hxw := h.first.latest hq hl w List.mem_cons_self
      have hlisted : (H₂.lookup (ρ q)).isSome := by rw [hl₂]; rfl
      obtain ⟨z, hz⟩ := h.second.present ((h.stores q).mp hstored) (Or.inl hlisted)
      have hzw := h.second.latest hz hl₂ w List.mem_cons_self
      rwa [h.form₂.owns_unique (h.owns_of_owns hx hy hxw) hzw]

/-! ### Clusters without values -/

/-- A cluster without values holds one new record by itself, or is as it was. -/
theorem exists_holder (hno : ∀ v, ¬s₁.tables.Owns config x v) (hq : s₁.tables.Holds config x q) :
    ∃ y, (∀ p, s₁.tables.Holds config x p → s₂.tables.Holds config y (ρ p)) ∧
      (x.toNat < s₀.ids.next → y = x) := by
  rcases hl : H₁.lookup q with - | V
  · obtain ⟨x₀, z, hx₀, -, -, hcase⟩ := h.kept_of_holds hq hl
    obtain ⟨-, rfl, -⟩ := hcase.resolve_left fun ⟨u, _, hxu, _⟩ ↦ hno u hxu
    refine ⟨x, fun p hp ↦ ?_, fun _ ↦ rfl⟩
    have hold := h.numbered.holder_lt x q hx₀
    have hlp : H₁.lookup p = none := by
      rcases hlp : H₁.lookup p with - | V
      · rfl
      · -- A record that was assigned without values would be in a new cluster.
        obtain rfl : V = [] :=
          List.eq_nil_iff_forall_not_mem.mpr fun w hw ↦ hno w (h.first.latest hp hlp w hw)
        exact absurd hold (Nat.not_lt.mpr (h.first.alone hp hlp).1)
    obtain ⟨z₀, z, -, hfix, hz, hcase⟩ := h.kept_of_holds hp hlp
    obtain ⟨-, hxz, hzz⟩ := hcase.resolve_left fun ⟨u, _, hxu, _⟩ ↦ hno u hxu
    rw [hfix, hxz, ← hzz]
    exact hz
  · have hstored := h.form₁.stores_of_holds hq
    obtain rfl : V = [] :=
      List.eq_nil_iff_forall_not_mem.mpr fun w hw ↦ hno w (h.first.latest hq hl w hw)
    obtain ⟨hnew, -, honly⟩ := h.first.alone hq hl
    have hlisted : (H₂.lookup (ρ q)).isSome := by
      rw [h.lookup q hstored, hl]
      rfl
    obtain ⟨y, hy⟩ := h.second.present ((h.stores q).mp hstored) (Or.inl hlisted)
    refine ⟨y, fun p hp ↦ ?_, fun hold ↦ absurd hold (Nat.not_lt.mpr hnew)⟩
    rw [honly p hp]
    exact hy

/-! ### All clusters -/

/-- What a cluster of the first history owns and holds is together in the second. -/
theorem exists_containing (hx : Used s₁.tables config x) :
    ∃ y, (∀ v, s₁.tables.Owns config x v → s₂.tables.Owns config y v) ∧
      (∀ q, s₁.tables.Holds config x q → s₂.tables.Holds config y (ρ q)) ∧
      (x.toNat < s₀.ids.next → y = x) := by
  by_cases hvalues : ∃ v, s₁.tables.Owns config x v
  · obtain ⟨v, hv⟩ := hvalues
    obtain ⟨y, hy⟩ := h.exists_owner hv
    exact ⟨y, fun u hu ↦ h.owns_of_owns hv hy hu, fun q hq ↦ h.holds_of_owns hv hy hq,
      h.eq_of_owns hv hy⟩
  · have hno : ∀ v, ¬s₁.tables.Owns config x v := fun v hv ↦ hvalues ⟨v, hv⟩
    obtain ⟨q, hq⟩ := hx.resolve_left hvalues
    obtain ⟨y, hholds, hsame⟩ := h.exists_holder hno hq
    exact ⟨y, fun v hv ↦ absurd hv (hno v), hholds, hsame⟩

/-- **Every cluster of the first history has a match in the second.** -/
theorem exists_matches (hx : Used s₁.tables config x) :
    ∃ y, Matches ρ config s₀ s₁ s₂ x y ∧ Used s₂.tables config y := by
  obtain ⟨y, howns, hholds, hsame⟩ := h.exists_containing hx
  have hy : Used s₂.tables config y := by
    rcases hx with ⟨v, hv⟩ | ⟨q, hq⟩
    · exact Or.inl ⟨v, howns v hv⟩
    · exact Or.inr ⟨ρ q, hholds q hq⟩
  obtain ⟨x', howns', hholds', hsame'⟩ := h.symm.exists_containing hy
  -- The way back leads to the same cluster, because something of it is found there.
  obtain rfl : x' = x := by
    rcases hx with ⟨v, hv⟩ | ⟨q, hq⟩
    · exact h.form₁.owns_unique (howns' v (howns v hv)) hv
    · have hq' := hholds' (ρ q) (hholds q hq)
      rw [Equiv.symm_apply_apply] at hq'
      exact h.form₁.holds_unique hq' hq
  refine ⟨y, ⟨fun v ↦ ⟨howns v, howns' v⟩, fun q ↦ ⟨hholds q, fun hq ↦ ?_⟩, ?_⟩, hy⟩
  · have hq' := hholds' (ρ q) hq
    rwa [Equiv.symm_apply_apply] at hq'
  · rintro (hold | hold)
    · exact (hsame hold).symm
    · exact hsame' hold

end Twins

/-! ## All match keys together -/

namespace Matches

theorem symm (h : Matches ρ.symm config s₀ s₂ s₁ y x) : Matches ρ config s₀ s₁ s₂ x y where
  owns v := (h.owns v).symm
  holds q := by rw [h.holds, Equiv.symm_apply_apply]
  same hold := (h.same hold.symm).symm

theorem right_unique {y' : ClusterId} (hform : s₂.tables.Wellformed)
    (hx : Used s₁.tables config x) (h : Matches ρ config s₀ s₁ s₂ x y)
    (h' : Matches ρ config s₀ s₁ s₂ x y') : y = y' := by
  rcases hx with ⟨v, hv⟩ | ⟨q, hq⟩
  · exact hform.owns_unique ((h.owns v).mp hv) ((h'.owns v).mp hv)
  · exact hform.holds_unique ((h.holds q).mp hq) ((h'.holds q).mp hq)

theorem left_unique {x' : ClusterId} (hform : s₁.tables.Wellformed)
    (hx : Used s₁.tables config x) (h : Matches ρ config s₀ s₁ s₂ x y)
    (h' : Matches ρ config s₀ s₁ s₂ x' y) : x = x' := by
  rcases hx with ⟨v, hv⟩ | ⟨q, hq⟩
  · exact hform.owns_unique hv ((h'.owns v).mpr ((h.owns v).mp hv))
  · exact hform.holds_unique hq ((h'.holds q).mpr ((h.holds q).mp hq))

end Matches

theorem Used.marked {t : Tables} (ht : t.Sound) (hx : Used t config x) : t.Marked config x := by
  rcases hx with ⟨v, hv⟩ | ⟨q, hq⟩
  · exact ht.owner_marked config x v hv
  · exact ht.member_marked config x q hq

/-- A cluster stands for another: it is the same one and was there before, or it matches it under
some match key. -/
def StandsFor (ρ : Equiv.Perm RecordId) (s₀ s₁ s₂ : World) (x y : ClusterId) : Prop :=
  x.toNat < s₀.ids.next ∧ y = x ∨
    ∃ c, Used s₁.tables c x ∧ Used s₂.tables c y ∧ Matches ρ c s₀ s₁ s₂ x y

namespace StandsFor

/-- A cluster is marked for one match key, so it has no matches under two of them. -/
theorem right_unique {y' : ClusterId} (hs₁ : s₁.tables.Sound) (hs₂ : s₂.tables.Sound)
    (h : StandsFor ρ s₀ s₁ s₂ x y) (h' : StandsFor ρ s₀ s₁ s₂ x y') : y = y' := by
  rcases h with ⟨hold, rfl⟩ | ⟨c, hx, -, h⟩ <;> rcases h' with ⟨hold', rfl⟩ | ⟨c', hx', -, h'⟩
  · rfl
  · exact h'.same (Or.inl hold)
  · exact (h.same (Or.inl hold')).symm
  · obtain rfl := hs₁.config_unique (hx.marked hs₁) (hx'.marked hs₁)
    exact h.right_unique hs₂.form hx h'

theorem left_unique {x' : ClusterId} (hs₁ : s₁.tables.Sound) (hs₂ : s₂.tables.Sound)
    (h : StandsFor ρ s₀ s₁ s₂ x y) (h' : StandsFor ρ s₀ s₁ s₂ x' y) : x = x' := by
  rcases h with ⟨hold, hyx⟩ | ⟨c, hx, hy, h⟩ <;> rcases h' with ⟨hold', hyx'⟩ | ⟨c', -, hy', h'⟩
  · exact hyx.symm.trans hyx'
  · exact hyx.symm.trans (h'.same (Or.inr (hyx ▸ hold))).symm
  · exact (h.same (Or.inr (hyx' ▸ hold'))).trans hyx'
  · obtain rfl := hs₂.config_unique (hy.marked hs₂) (hy'.marked hs₂)
    exact h.left_unique hs₁.form hx h'

end StandsFor

/-- **Twins under every match key differ in the names of new clusters only.** -/
theorem exists_renaming (hs₁ : s₁.tables.Sound) (hs₂ : s₂.tables.Sound)
    (htwins : ∀ c, ∃ H₁ H₂, Twins ρ c s₀ H₁ s₁ H₂ s₂) : ∃ κ : Equiv.Perm ClusterId,
      (∀ x, x.toNat < s₀.ids.next → κ x = x) ∧
      (∀ c x v, s₁.tables.Owns c x v ↔ s₂.tables.Owns c (κ x) v) ∧
      ∀ c x q, s₁.tables.Holds c x q ↔ s₂.tables.Holds c (κ x) (ρ q) := by
  obtain ⟨κ, hκ⟩ : ∃ κ : Equiv.Perm ClusterId, ∀ x y, StandsFor ρ s₀ s₁ s₂ x y → κ x = y :=
    exists_perm_of_one_to_one (fun _ _ _ h h' ↦ h.right_unique hs₁ hs₂ h')
      fun _ _ _ h h' ↦ h.left_unique hs₁ hs₂ h'
  have hmatch : ∀ c x, Used s₁.tables c x ∨ Used s₂.tables c (κ x) →
      Matches ρ c s₀ s₁ s₂ x (κ x) := by
    intro c x hused
    obtain ⟨H₁, H₂, h⟩ := htwins c
    rcases hused with hx | hy
    · obtain ⟨y, hxy, hy⟩ := h.exists_matches hx
      rwa [hκ x y (Or.inr ⟨c, hx, hy, hxy⟩)]
    · -- What the cluster in the second world matches is renamed to it, so it is the one given.
      obtain ⟨x', hxy, hx'⟩ := h.symm.exists_matches hy
      have heq : κ x' = κ x := hκ _ _ (Or.inr ⟨c, hx', hy, hxy.symm⟩)
      rw [← κ.injective heq] at hxy ⊢
      exact hxy.symm
  refine ⟨κ, fun x hold ↦ hκ x x (Or.inl ⟨hold, rfl⟩), fun c x v ↦ ?_, fun c x q ↦ ?_⟩
  · constructor
    · intro hx
      exact ((hmatch c x (Or.inl (Or.inl ⟨v, hx⟩))).owns v).mp hx
    · intro hy
      exact ((hmatch c x (Or.inr (Or.inl ⟨v, hy⟩))).owns v).mpr hy
  · constructor
    · intro hx
      exact ((hmatch c x (Or.inl (Or.inr ⟨q, hx⟩))).holds q).mp hx
    · intro hy
      exact ((hmatch c x (Or.inr (Or.inr ⟨ρ q, hy⟩))).holds q).mpr hy

end RecordLinkage.Clustering
