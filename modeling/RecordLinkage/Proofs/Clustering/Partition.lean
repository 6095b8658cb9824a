import Mathlib.Logic.Relation
import RecordLinkage.Proofs.Clustering.Assignment

/-!
# The partition that assignments leave behind

Under one match key, assignments follow one another, and in between records come and go. What the
clusters look like in the end is determined by the clusters at the start and by which sets of values
were assigned, and this module says how.

Two values are linked when a chain leads from one to the other, where each step stays within a
cluster of the start or within a set that was assigned. The values that a cluster owns are a class
of linked values, and the cluster itself is the oldest one of the start that owned some of them, or
a new one if there is none. There is no reflexivity in a chain, so a value is linked to itself
exactly when somebody owns it.

## Members

A record that was assigned is in the cluster of the values it was assigned with last. A record that
was not is where the values of its old cluster went. Clusters without values are never joined to
anything: those that a record without values starts stay with that record alone.

## The shape of the proof

`Course` is the history of a match key, with the assignments listed newest first. `Tracks` says what
holds at every moment of it. The two things that can happen are treated by `Tracks.spare` and
`Tracks.assign`; the second one rests on `linked_cons_iff`, by which one more set joins the classes
that it touches and leaves the others alone.
-/

namespace RecordLinkage.Clustering

open Relation Tables

variable {config : String} {s₀ s s' : World} {H : List (RecordId × List String)}
  {v w u : String} {x y : ClusterId} {q r : RecordId} {V : List String}

/-! ## Linked values -/

/-- Two values were owned by one cluster at the start, or assigned together. -/
def Tie (t₀ : Tables) (config : String) (H : List (RecordId × List String)) (v w : String) : Prop :=
  (∃ x, t₀.Owns config x v ∧ t₀.Owns config x w) ∨ ∃ e ∈ H, v ∈ e.2 ∧ w ∈ e.2

/-- A chain of ties leads from one value to another. -/
def Linked (t₀ : Tables) (config : String) (H : List (RecordId × List String)) :
    String → String → Prop :=
  TransGen (Tie t₀ config H)

/-- A value was owned at the start, or has been assigned. -/
def Named (t₀ : Tables) (config : String) (H : List (RecordId × List String)) (v : String) : Prop :=
  (∃ x, t₀.Owns config x v) ∨ ∃ e ∈ H, v ∈ e.2

variable {t₀ : Tables}

theorem Tie.symm (h : Tie t₀ config H v w) : Tie t₀ config H w v := by
  rcases h with ⟨x, hv, hw⟩ | ⟨e, he, hv, hw⟩
  · exact Or.inl ⟨x, hw, hv⟩
  · exact Or.inr ⟨e, he, hw, hv⟩

theorem Tie.named (h : Tie t₀ config H v w) : Named t₀ config H v := by
  rcases h with ⟨x, hv, -⟩ | ⟨e, he, hv, -⟩
  · exact Or.inl ⟨x, hv⟩
  · exact Or.inr ⟨e, he, hv⟩

theorem Named.tie (h : Named t₀ config H v) : Tie t₀ config H v v := by
  rcases h with ⟨x, hv⟩ | ⟨e, he, hv⟩
  · exact Or.inl ⟨x, hv, hv⟩
  · exact Or.inr ⟨e, he, hv, hv⟩

theorem Named.linked (h : Named t₀ config H v) : Linked t₀ config H v v := .single h.tie

namespace Linked

theorem symm (h : Linked t₀ config H v w) : Linked t₀ config H w v := by
  induction h with
  | single h => exact .single h.symm
  | tail _ h ih => exact .head h.symm ih

theorem trans (h : Linked t₀ config H v w) (h' : Linked t₀ config H w u) :
    Linked t₀ config H v u :=
  TransGen.trans h h'

theorem named_left (h : Linked t₀ config H v w) : Named t₀ config H v := by
  obtain ⟨u, htie, -⟩ := TransGen.head'_iff.mp h
  exact htie.named

theorem named_right (h : Linked t₀ config H v w) : Named t₀ config H w := h.symm.named_left

theorem of_owns (hv : t₀.Owns config x v) (hw : t₀.Owns config x w) : Linked t₀ config H v w :=
  .single (Or.inl ⟨x, hv, hw⟩)

theorem cons (h : Linked t₀ config H v w) (e : RecordId × List String) :
    Linked t₀ config (e :: H) v w := by
  refine TransGen.mono (fun a b hab ↦ ?_) v w h
  exact hab.imp_right fun ⟨e', he', h⟩ ↦ ⟨e', List.mem_cons_of_mem _ he', h⟩

end Linked

/-- Which sets were assigned is all that matters, and not to whom or in what order. -/
theorem linked_congr {H' : List (RecordId × List String)}
    (h : ∀ S, (∃ e ∈ H, e.2 = S) ↔ ∃ e ∈ H', e.2 = S) :
    Linked t₀ config H v w ↔ Linked t₀ config H' v w := by
  have hties : Tie t₀ config H = Tie t₀ config H' := by
    funext a b
    have hsets : (∃ e ∈ H, a ∈ e.2 ∧ b ∈ e.2) ↔ ∃ e ∈ H', a ∈ e.2 ∧ b ∈ e.2 := by
      constructor
      · rintro ⟨e, he, hab⟩
        obtain ⟨e', he', heq⟩ := (h e.2).mp ⟨e, he, rfl⟩
        exact ⟨e', he', heq.symm ▸ hab⟩
      · rintro ⟨e, he, hab⟩
        obtain ⟨e', he', heq⟩ := (h e.2).mpr ⟨e, he, rfl⟩
        exact ⟨e', he', heq.symm ▸ hab⟩
    exact propext (or_congr_right hsets)
  rw [Linked, hties, Linked]

/-- A value is in a set, or linked to a value of it. -/
def Reaches (t₀ : Tables) (config : String) (H : List (RecordId × List String)) (V : List String)
    (v : String) : Prop :=
  v ∈ V ∨ ∃ u ∈ V, Linked t₀ config H v u

theorem Reaches.of_linked (h : Reaches t₀ config H V w) (hvw : Linked t₀ config H v w) :
    Reaches t₀ config H V v := by
  rcases h with hw | ⟨u, hu, hwu⟩
  · exact Or.inr ⟨w, hw, hvw⟩
  · exact Or.inr ⟨u, hu, hvw.trans hwu⟩

/-- One more set joins the classes that it reaches, and leaves the others alone. -/
theorem linked_cons_iff : Linked t₀ config ((r, V) :: H) v w ↔
    Linked t₀ config H v w ∨ Reaches t₀ config H V v ∧ Reaches t₀ config H V w := by
  constructor
  · -- The right-hand side contains the ties and is transitive.
    have htie : ∀ {a b}, Tie t₀ config ((r, V) :: H) a b → Linked t₀ config H a b ∨
        Reaches t₀ config H V a ∧ Reaches t₀ config H V b := by
      rintro a b (hstart | ⟨e, he, ha, hb⟩)
      · exact Or.inl (.single (Or.inl hstart))
      · rcases List.mem_cons.mp he with rfl | he
        · exact Or.inr ⟨Or.inl ha, Or.inl hb⟩
        · exact Or.inl (.single (Or.inr ⟨e, he, ha, hb⟩))
    intro h
    induction h with
    | single h => exact htie h
    | tail _ hbc ih =>
      -- Once a chain has passed through the new set, everything before and after is reached.
      rcases ih with hab | ⟨ha, hb⟩ <;> rcases htie hbc with hbc | ⟨hb', hc⟩
      · exact Or.inl (hab.trans hbc)
      · exact Or.inr ⟨hb'.of_linked hab, hc⟩
      · exact Or.inr ⟨ha, hb.of_linked hbc.symm⟩
      · exact Or.inr ⟨ha, hc⟩
  · have hset : ∀ {a b}, a ∈ V → b ∈ V → Linked t₀ config ((r, V) :: H) a b :=
      fun ha hb ↦ .single (Or.inr ⟨(r, V), List.mem_cons_self, ha, hb⟩)
    have hreach : ∀ {a}, Reaches t₀ config H V a →
        ∃ u ∈ V, Linked t₀ config ((r, V) :: H) a u := by
      rintro a (ha | ⟨u, hu, hau⟩)
      · exact ⟨a, ha, hset ha ha⟩
      · exact ⟨u, hu, hau.cons _⟩
    rintro (h | ⟨hv, hw⟩)
    · exact h.cons _
    · obtain ⟨a, ha, hva⟩ := hreach hv
      obtain ⟨b, hb, hwb⟩ := hreach hw
      exact (hva.trans (hset ha hb)).trans hwb.symm

theorem named_cons_iff : Named t₀ config ((r, V) :: H) v ↔ Named t₀ config H v ∨ v ∈ V := by
  simp only [Named, List.mem_cons, or_and_right, exists_or, exists_eq_left]
  exact (or_congr_right or_comm).trans or_assoc.symm

/-! ## Histories -/

/-- Identifiers in use were taken from the supply. -/
structure Numbered (config : String) (s : World) : Prop where
  owner_lt : ∀ x v, s.tables.Owns config x v → x.toNat < s.ids.next
  holder_lt : ∀ x q, s.tables.Holds config x q → x.toNat < s.ids.next
  member_lt : ∀ x q, s.tables.Holds config x q → q.toNat < s.ids.next

/-- Nothing happens under a match key, except that records come and go. -/
structure Spares (config : String) (s s' : World) : Prop where
  ids_le : s.ids.next ≤ s'.ids.next
  owns : ∀ x v, s'.tables.Owns config x v ↔ s.tables.Owns config x v
  holds : ∀ x q, s'.tables.Holds config x q ↔ s.tables.Holds config x q ∧ s'.tables.Stores q
  stores : ∀ q, s'.tables.Stores q → s.tables.Stores q ∨ s.ids.next ≤ q.toNat

/-- **What holds after a history of assignments.** -/
structure Tracks (config : String) (s₀ : World) (H : List (RecordId × List String))
    (s : World) : Prop where
  ids_le : s₀.ids.next ≤ s.ids.next
  numbered : Numbered config s
  history_lt : ∀ e ∈ H, e.1.toNat < s.ids.next
  /-- A value is owned when it was owned or has been assigned. -/
  owned : ∀ v, (∃ x, s.tables.Owns config x v) ↔ Named s₀.tables config H v
  /-- Linked values are owned together, and others are not. -/
  linked : ∀ {x y v w}, s.tables.Owns config x v → s.tables.Owns config y w →
    (x = y ↔ Linked s₀.tables config H v w)
  /-- No former owner of a linked value is older than the owner. -/
  oldest : ∀ {x y v w}, s.tables.Owns config x v → s₀.tables.Owns config y w →
    Linked s₀.tables config H v w → x.toNat ≤ y.toNat
  /-- An owner that is not new owned a linked value. -/
  former : ∀ {x v}, s.tables.Owns config x v → x.toNat < s₀.ids.next →
    ∃ u, s₀.tables.Owns config x u ∧ Linked s₀.tables config H v u
  /-- A record that was not assigned is where its cluster went. -/
  kept : ∀ {x q}, s.tables.Holds config x q → H.lookup q = none →
    ∃ x₀, s₀.tables.Holds config x₀ q ∧
      ((∃ u, s₀.tables.Owns config x₀ u ∧ s.tables.Owns config x u) ∨
        (∀ u, ¬s₀.tables.Owns config x₀ u) ∧ x = x₀)
  /-- A record that was assigned is where its values are. -/
  latest : ∀ {x q V}, s.tables.Holds config x q → H.lookup q = some V →
    ∀ v ∈ V, s.tables.Owns config x v
  /-- A record that was assigned without values is alone in a new cluster. -/
  alone : ∀ {x q}, s.tables.Holds config x q → H.lookup q = some [] →
    s₀.ids.next ≤ x.toNat ∧ (∀ u, ¬s.tables.Owns config x u) ∧
      ∀ p, s.tables.Holds config x p → p = q
  /-- A stored record that was assigned, or was in a cluster, is in a cluster. -/
  present : ∀ {q}, s.tables.Stores q →
    ((H.lookup q).isSome ∨ ∃ x₀, s₀.tables.Holds config x₀ q) → ∃ x, s.tables.Holds config x q

theorem mem_of_lookup (h : H.lookup q = some V) : (q, V) ∈ H := by
  obtain ⟨H₁, H₂, rfl, -⟩ := List.lookup_eq_some_iff.mp h
  exact List.mem_append_right _ List.mem_cons_self

private theorem lookup_cons_eq_some {U : List String} (h : ((r, V) :: H).lookup q = some U) :
    q = r ∧ U = V ∨ q ≠ r ∧ H.lookup q = some U := by
  rw [List.lookup_cons] at h
  by_cases hqr : q = r
  · rw [beq_iff_eq.mpr hqr] at h
    exact Or.inl ⟨hqr, (Option.some.inj h).symm⟩
  · rw [beq_false_of_ne hqr] at h
    exact Or.inr ⟨hqr, h⟩

private theorem lookup_cons_eq_none (h : ((r, V) :: H).lookup q = none) :
    q ≠ r ∧ H.lookup q = none := by
  rw [List.lookup_cons] at h
  by_cases hqr : q = r
  · rw [beq_iff_eq.mpr hqr] at h
    exact absurd h (Option.some_ne_none _)
  · rw [beq_false_of_ne hqr] at h
    exact ⟨hqr, h⟩

/-- At the start a chain never leaves the cluster in which it begins. -/
private theorem owns_of_linked_nil (h : t₀.Wellformed) (hv : t₀.Owns config x v)
    (hl : Linked t₀ config [] v w) : t₀.Owns config x w := by
  have htie : ∀ {a b}, t₀.Owns config x a → Tie t₀ config [] a b → t₀.Owns config x b := by
    rintro a b ha (⟨z, hza, hzb⟩ | ⟨e, he, -⟩)
    · exact h.owns_unique ha hza ▸ hzb
    · exact absurd he List.not_mem_nil
  induction hl with
  | single hab => exact htie hv hab
  | tail _ hbc ih => exact htie ih hbc

namespace Tracks

/-- Before the first assignment the linked values are those that are owned together. -/
theorem start (h : s.tables.Wellformed) (hn : Numbered config s) : Tracks config s [] s where
  ids_le := Nat.le_refl _
  numbered := hn
  history_lt e he := absurd he List.not_mem_nil
  owned v := by simp [Named]
  linked {x y v w} hx hy := by
    constructor
    · rintro rfl
      exact .of_owns hx hy
    · exact fun hl ↦ h.owns_unique (owns_of_linked_nil h hx hl) hy
  oldest hx hy hl := by
    rw [h.owns_unique (owns_of_linked_nil h hx hl) hy]
  former {x v} hx _ := ⟨v, hx, .of_owns hx hx⟩
  kept {x q} hx _ := by
    by_cases hu : ∃ u, s.tables.Owns config x u
    · obtain ⟨u, hu⟩ := hu
      exact ⟨x, hx, Or.inl ⟨u, hu, hu⟩⟩
    · exact ⟨x, hx, Or.inr ⟨fun u h ↦ hu ⟨u, h⟩, rfl⟩⟩
  latest _ hl := by simp at hl
  alone _ hl := by simp at hl
  present _ h := by simpa using h

variable (h : Tracks config s₀ H s)

include h

/-! ### While nothing is assigned -/

theorem spare (hn : Numbered config s₀) (hs : Spares config s s') :
    Tracks config s₀ H s' where
  ids_le := h.ids_le.trans hs.ids_le
  numbered := {
    owner_lt := fun x v hx ↦
      (h.numbered.owner_lt x v ((hs.owns x v).mp hx)).trans_le hs.ids_le
    holder_lt := fun x q hx ↦
      (h.numbered.holder_lt x q ((hs.holds x q).mp hx).1).trans_le hs.ids_le
    member_lt := fun x q hx ↦
      (h.numbered.member_lt x q ((hs.holds x q).mp hx).1).trans_le hs.ids_le }
  history_lt e he := (h.history_lt e he).trans_le hs.ids_le
  owned v := by
    simp only [hs.owns]
    exact h.owned v
  linked hx hy := h.linked ((hs.owns _ _).mp hx) ((hs.owns _ _).mp hy)
  oldest hx hy := h.oldest ((hs.owns _ _).mp hx) hy
  former hx := h.former ((hs.owns _ _).mp hx)
  kept {x q} hx hl := by
    simp only [hs.owns]
    exact h.kept ((hs.holds _ _).mp hx).1 hl
  latest {x q V} hx hl v hv := (hs.owns x v).mpr (h.latest ((hs.holds _ _).mp hx).1 hl v hv)
  alone {x q} hx hl := by
    obtain ⟨hle, hno, honly⟩ := h.alone ((hs.holds _ _).mp hx).1 hl
    exact ⟨hle, fun u hu ↦ hno u ((hs.owns x u).mp hu),
      fun p hp ↦ honly p ((hs.holds x p).mp hp).1⟩
  present {q} hq hwas := by
    -- A record that is new has an identifier that the history does not know.
    have hold : q.toNat < s.ids.next := by
      rcases hwas with hl | ⟨x₀, hx₀⟩
      · obtain ⟨V, hl⟩ := Option.isSome_iff_exists.mp hl
        exact h.history_lt _ (mem_of_lookup hl)
      · exact (hn.member_lt x₀ q hx₀).trans_le h.ids_le
    have hq' := (hs.stores q hq).resolve_right (Nat.not_le.mpr hold)
    obtain ⟨x, hx⟩ := h.present hq' hwas
    exact ⟨x, (hs.holds x q).mpr ⟨hx, hq⟩⟩

/-! ### One assignment more -/

/-- A cluster is touched exactly when the values that it owns are reached. -/
theorem reaches_iff (hx : s.tables.Owns config x v) :
    Reaches s₀.tables config H V v ↔ Touches s.tables config V x := by
  constructor
  · rintro (hv | ⟨u, hu, hvu⟩)
    · exact ⟨v, hv, hx⟩
    · obtain ⟨y, hy⟩ := (h.owned u).mpr hvu.named_right
      obtain rfl := (h.linked hx hy).mpr hvu
      exact ⟨u, hu, hy⟩
  · rintro ⟨u, hu, hxu⟩
    exact Or.inr ⟨u, hu, (h.linked hx hxu).mp rfl⟩

section Assign

variable {now : Datestamp} {a : Assignment} (ha : Assigned now r config V a s s')

include ha

/-- The winner owns what is reached; whatever else is owned stays where it was. -/
theorem owns_iff : s'.tables.Owns config x v ↔ x = a.cluster ∧ Reaches s₀.tables config H V v ∨
    s.tables.Owns config x v ∧ ¬Reaches s₀.tables config H V v := by
  rw [ha.owns]
  constructor
  · rintro (⟨hx, hv⟩ | ⟨y, hy, ⟨ht, hx⟩ | ⟨ht, rfl⟩⟩)
    · exact Or.inl ⟨hx, Or.inl hv⟩
    · exact Or.inl ⟨hx, (h.reaches_iff hy).mpr ht⟩
    · exact Or.inr ⟨hy, fun hv ↦ ht ((h.reaches_iff hy).mp hv)⟩
  · rintro (⟨hx, hv | ⟨u, hu, hvu⟩⟩ | ⟨hx, hv⟩)
    · exact Or.inl ⟨hx, hv⟩
    · obtain ⟨y, hy⟩ := (h.owned v).mpr hvu.named_left
      exact Or.inr ⟨y, hy, Or.inl ⟨(h.reaches_iff hy).mp (Or.inr ⟨u, hu, hvu⟩), hx⟩⟩
    · exact Or.inr ⟨x, hx, Or.inr ⟨fun ht ↦ hv ((h.reaches_iff hx).mpr ht), rfl⟩⟩

private theorem owned_assign (v : String) :
    (∃ x, s'.tables.Owns config x v) ↔ Named s₀.tables config ((r, V) :: H) v := by
  simp only [h.owns_iff ha, named_cons_iff]
  constructor
  · rintro ⟨x, ⟨-, hv | ⟨u, -, hvu⟩⟩ | ⟨hx, -⟩⟩
    · exact Or.inr hv
    · exact Or.inl hvu.named_left
    · exact Or.inl ((h.owned v).mp ⟨x, hx⟩)
  · rintro (hv | hv)
    · obtain ⟨x, hx⟩ := (h.owned v).mpr hv
      by_cases hr : Reaches s₀.tables config H V v
      · exact ⟨_, Or.inl ⟨rfl, hr⟩⟩
      · exact ⟨x, Or.inr ⟨hx, hr⟩⟩
    · exact ⟨_, Or.inl ⟨rfl, Or.inl hv⟩⟩

omit h in
/-- What the winner takes over, it owns. -/
private theorem owns_of_goes {y : ClusterId} (hu : s.tables.Owns config y u)
    (hgoes : Touches s.tables config V y ∧ x = a.cluster ∨
      ¬Touches s.tables config V y ∧ x = y) : s'.tables.Owns config x u :=
  (ha.owns x u).mpr (Or.inr ⟨y, hu, hgoes⟩)

private theorem oldest_assign (hx : s'.tables.Owns config x v) (hy : s₀.tables.Owns config y w)
    (hvw : Linked s₀.tables config ((r, V) :: H) v w) : x.toNat ≤ y.toNat := by
  rcases (h.owns_iff ha).mp hx with ⟨rfl, hv⟩ | ⟨hx, hv⟩
  · -- The cluster that owns the linked value now is touched, so the winner is not newer.
    have hw : Reaches s₀.tables config H V w := by
      rcases linked_cons_iff.mp hvw with hvw | ⟨-, hw⟩
      · exact hv.of_linked hvw.symm
      · exact hw
    have hnamed : Named s₀.tables config H w := Or.inl ⟨y, hy⟩
    obtain ⟨z, hz⟩ := (h.owned w).mpr hnamed
    have hzy : z.toNat ≤ y.toNat := h.oldest hz hy hnamed.linked
    exact (ha.winner z ((h.reaches_iff hz).mp hw)).2.trans hzy
  · exact h.oldest hx hy ((linked_cons_iff.mp hvw).resolve_right fun hboth ↦ hv hboth.1)

private theorem kept_assign (hn : Numbered config s₀) (hx : s'.tables.Holds config x q)
    (hl : ((r, V) :: H).lookup q = none) : ∃ x₀, s₀.tables.Holds config x₀ q ∧
      ((∃ u, s₀.tables.Owns config x₀ u ∧ s'.tables.Owns config x u) ∨
        (∀ u, ¬s₀.tables.Owns config x₀ u) ∧ x = x₀) := by
  obtain ⟨hqr, hl⟩ := lookup_cons_eq_none hl
  obtain ⟨-, y, hy, hgoes⟩ := ((ha.holds x q).mp hx).resolve_left fun hr ↦ hqr hr.1
  obtain ⟨x₀, hx₀, ⟨u, hu₀, hu⟩ | ⟨hno, rfl⟩⟩ := h.kept hy hl
  · exact ⟨x₀, hx₀, Or.inl ⟨u, hu₀, owns_of_goes ha hu hgoes⟩⟩
  · -- A cluster of the start that owned nothing owns nothing still, so it is not touched.
    have ht : ¬Touches s.tables config V y := by
      rintro ⟨b, -, hb⟩
      obtain ⟨u, hu, -⟩ := h.former hb (hn.holder_lt y q hx₀)
      exact hno u hu
    exact ⟨y, hx₀, Or.inr ⟨hno, (hgoes.resolve_left fun hg ↦ ht hg.1).2⟩⟩

private theorem latest_assign {U : List String} (hx : s'.tables.Holds config x q)
    (hl : ((r, V) :: H).lookup q = some U) : ∀ v ∈ U, s'.tables.Owns config x v := by
  intro v hv
  rcases lookup_cons_eq_some hl with ⟨rfl, rfl⟩ | ⟨hqr, hl⟩
  · obtain ⟨-, rfl⟩ := ((ha.holds x q).mp hx).resolve_right fun hr ↦ hr.1 rfl
    exact (ha.owns _ v).mpr (Or.inl ⟨rfl, hv⟩)
  · obtain ⟨-, y, hy, hgoes⟩ := ((ha.holds x q).mp hx).resolve_left fun hr ↦ hqr hr.1
    exact owns_of_goes ha (h.latest hy hl v hv) hgoes

private theorem present_assign (hq : s'.tables.Stores q)
    (hwas : (((r, V) :: H).lookup q).isSome ∨ ∃ x₀, s₀.tables.Holds config x₀ q) :
    ∃ x, s'.tables.Holds config x q := by
  by_cases hqr : q = r
  · exact ⟨_, (ha.holds _ q).mpr (Or.inl ⟨hqr, rfl⟩)⟩
  · have hq' : s.tables.Stores q := by
      rwa [Stores, ha.records] at hq
    have hwas' : (H.lookup q).isSome ∨ ∃ x₀, s₀.tables.Holds config x₀ q := by
      rwa [List.lookup_cons, beq_false_of_ne hqr] at hwas
    obtain ⟨y, hy⟩ := h.present hq' hwas'
    by_cases ht : Touches s.tables config V y
    · exact ⟨_, (ha.holds _ q).mpr (Or.inr ⟨hqr, y, hy, Or.inl ⟨ht, rfl⟩⟩)⟩
    · exact ⟨y, (ha.holds y q).mpr (Or.inr ⟨hqr, y, hy, Or.inr ⟨ht, rfl⟩⟩)⟩

variable (hlt : s.ids.next < 2 ^ 128)

include hlt

private theorem linked_assign (hx : s'.tables.Owns config x v) (hy : s'.tables.Owns config y w) :
    x = y ↔ Linked s₀.tables config ((r, V) :: H) v w := by
  -- The winner may be a cluster that was there, but then it was touched.
  have hstays : ∀ {z b}, s.tables.Owns config z b → ¬Reaches s₀.tables config H V b →
      z ≠ a.cluster := fun hz hb ↦
    ha.ne_winner hlt (h.numbered.owner_lt _ _ hz) fun ht ↦ hb ((h.reaches_iff hz).mpr ht)
  rw [linked_cons_iff]
  rcases (h.owns_iff ha).mp hx with ⟨rfl, hv⟩ | ⟨hx, hv⟩ <;>
    rcases (h.owns_iff ha).mp hy with ⟨rfl, hw⟩ | ⟨hy, hw⟩
  · exact iff_of_true rfl (Or.inr ⟨hv, hw⟩)
  · refine iff_of_false (hstays hy hw).symm ?_
    rintro (hvw | ⟨-, hw'⟩)
    · exact hw (hv.of_linked hvw.symm)
    · exact hw hw'
  · refine iff_of_false (hstays hx hv) ?_
    rintro (hvw | ⟨hv', -⟩)
    · exact hv (hw.of_linked hvw)
    · exact hv hv'
  · rw [h.linked hx hy]
    exact ⟨Or.inl, fun hvw ↦ hvw.resolve_right fun hboth ↦ hv hboth.1⟩

private theorem former_assign (hx : s'.tables.Owns config x v) (hold : x.toNat < s₀.ids.next) :
    ∃ u, s₀.tables.Owns config x u ∧ Linked s₀.tables config ((r, V) :: H) v u := by
  rcases (h.owns_iff ha).mp hx with ⟨rfl, hv⟩ | ⟨hx, -⟩
  · -- A winner that is not new owned one of the values that are assigned.
    rcases ha.winner_cases hlt with ⟨b, hb, hxb⟩ | ⟨-, hnat, -⟩
    · obtain ⟨u, hu, hbu⟩ := h.former hxb hold
      have hreach : Reaches s₀.tables config H V u := Or.inr ⟨b, hb, hbu.symm⟩
      exact ⟨u, hu, linked_cons_iff.mpr (Or.inr ⟨hv, hreach⟩)⟩
    · exact absurd (hnat ▸ hold) (Nat.not_lt.mpr h.ids_le)
  · obtain ⟨u, hu, hvu⟩ := h.former hx hold
    exact ⟨u, hu, hvu.cons _⟩

private theorem alone_assign (hx : s'.tables.Holds config x q)
    (hl : ((r, V) :: H).lookup q = some []) : s₀.ids.next ≤ x.toNat ∧
      (∀ u, ¬s'.tables.Owns config x u) ∧ ∀ p, s'.tables.Holds config x p → p = q := by
  rcases lookup_cons_eq_some hl with ⟨rfl, rfl⟩ | ⟨hqr, hl⟩
  · -- Nothing is touched, so the winner is new.
    obtain ⟨-, rfl⟩ := ((ha.holds x q).mp hx).resolve_right fun hr ↦ hr.1 rfl
    rcases ha.winner_cases hlt with ⟨b, hb, -⟩ | ⟨hno, hnat, -⟩
    · exact absurd hb List.not_mem_nil
    · refine ⟨hnat ▸ h.ids_le, fun u hu ↦ ?_, fun p hp ↦ ?_⟩
      · rcases (ha.owns _ u).mp hu with ⟨-, hu⟩ | ⟨y, hy, ⟨ht, -⟩ | ⟨-, heq⟩⟩
        · exact absurd hu List.not_mem_nil
        · exact hno y ht
        · exact ha.ne_winner hlt (h.numbered.owner_lt y u hy) (hno y) heq.symm
      · rcases (ha.holds _ p).mp hp with ⟨hpr, -⟩ | ⟨-, y, hy, ⟨ht, -⟩ | ⟨-, heq⟩⟩
        · exact hpr
        · exact absurd ht (hno y)
        · exact absurd heq.symm (ha.ne_winner hlt (h.numbered.holder_lt y p hy) (hno y))
  · -- The cluster owns nothing, so it is not touched and is not the winner.
    obtain ⟨-, y, hy, hgoes⟩ := ((ha.holds x q).mp hx).resolve_left fun hr ↦ hqr hr.1
    obtain ⟨hle, hno, honly⟩ := h.alone hy hl
    have ht : ¬Touches s.tables config V y := fun ⟨b, _, hb⟩ ↦ hno b hb
    have hne := ha.ne_winner hlt (h.numbered.holder_lt y q hy) ht
    obtain rfl : x = y := (hgoes.resolve_left fun hg ↦ ht hg.1).2
    refine ⟨hle, fun u hu ↦ ?_, fun p hp ↦ ?_⟩
    · rcases (ha.owns x u).mp hu with ⟨heq, -⟩ | ⟨z, hz, ⟨-, heq⟩ | ⟨-, rfl⟩⟩
      · exact hne heq
      · exact hne heq
      · exact hno u hz
    · rcases (ha.holds x p).mp hp with ⟨-, heq⟩ | ⟨-, z, hz, ⟨-, heq⟩ | ⟨-, rfl⟩⟩
      · exact absurd heq hne
      · exact absurd heq hne
      · exact honly p hz

private theorem numbered_assign (hr : r.toNat < s.ids.next) : Numbered config s' := by
  have hwinner : a.cluster.toNat < s'.ids.next := by
    rcases ha.winner_cases hlt with ⟨b, -, hb⟩ | ⟨-, hnat, hnext⟩
    · exact (h.numbered.owner_lt _ b hb).trans_le ha.ids_le
    · rw [hnat, hnext]
      exact Nat.lt_succ_self _
  refine ⟨fun x v hx ↦ ?_, fun x q hx ↦ ?_, fun x q hx ↦ ?_⟩
  · rcases (ha.owns x v).mp hx with ⟨rfl, -⟩ | ⟨y, hy, ⟨-, rfl⟩ | ⟨-, rfl⟩⟩
    · exact hwinner
    · exact hwinner
    · exact (h.numbered.owner_lt x v hy).trans_le ha.ids_le
  · rcases (ha.holds x q).mp hx with ⟨-, rfl⟩ | ⟨-, y, hy, ⟨-, rfl⟩ | ⟨-, rfl⟩⟩
    · exact hwinner
    · exact hwinner
    · exact (h.numbered.holder_lt x q hy).trans_le ha.ids_le
  · rcases (ha.holds x q).mp hx with ⟨rfl, -⟩ | ⟨-, y, hy, -⟩
    · exact hr.trans_le ha.ids_le
    · exact (h.numbered.member_lt y q hy).trans_le ha.ids_le

theorem assign (hn : Numbered config s₀) (hr : r.toNat < s.ids.next) :
    Tracks config s₀ ((r, V) :: H) s' where
  ids_le := h.ids_le.trans ha.ids_le
  numbered := h.numbered_assign ha hlt hr
  history_lt e he := by
    rcases List.mem_cons.mp he with rfl | he
    · exact hr.trans_le ha.ids_le
    · exact (h.history_lt e he).trans_le ha.ids_le
  owned := h.owned_assign ha
  linked := h.linked_assign ha hlt
  oldest := h.oldest_assign ha
  former := h.former_assign ha hlt
  kept := h.kept_assign ha hn
  latest := h.latest_assign ha
  alone := h.alone_assign ha hlt
  present := h.present_assign ha

end Assign

end Tracks

/-! ## Whole histories -/

/-- A history of a match key: records are assigned, with the identifiers that are minted fitting
into their columns, and otherwise only records come and go. The latest assignment comes first. -/
inductive Course (config : String) (s₀ : World) : List (RecordId × List String) → World → Prop where
  | start : Course config s₀ [] s₀
  | spare {H : List (RecordId × List String)} {s s' : World} (h : Course config s₀ H s)
    (hs : Spares config s s') : Course config s₀ H s'
  | assign {H : List (RecordId × List String)} {s s' : World} {now : Datestamp} {r : RecordId}
    {V : List String} {a : Assignment} (h : Course config s₀ H s)
    (ha : Assigned now r config V a s s') (hr : r.toNat < s.ids.next)
    (hlt : s.ids.next < 2 ^ 128) : Course config s₀ ((r, V) :: H) s'

namespace Course

/-- **A history leaves the partition that its sets describe.** -/
theorem tracks (hform : s₀.tables.Wellformed) (hn : Numbered config s₀)
    (h : Course config s₀ H s) : Tracks config s₀ H s := by
  induction h with
  | start => exact .start hform hn
  | spare _ hs ih => exact ih.spare hn hs
  | assign _ ha hr hlt ih => exact ih.assign ha hlt hn hr

theorem trans {H' : List (RecordId × List String)} (h : Course config s₀ H s)
    (h' : Course config s H' s') : Course config s₀ (H' ++ H) s' := by
  induction h' with
  | start => exact h
  | spare _ hs ih => exact ih.spare hs
  | assign _ ha hr hlt ih => exact ih.assign ha hr hlt

end Course

end RecordLinkage.Clustering
