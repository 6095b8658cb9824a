import RecordLinkage.Proofs.History.Apart

/-!
# Assignments compute connected components

A match key without clusters, records that are assigned to it in any order and as often as one
likes, and anything else going on in between: other match keys, records that are stored again and
records that are deleted. In the end the values that were assigned are partitioned among the
clusters as the connected components of the assigned sets, and the records that are left are where
their latest values are.

The history of a match key is read off the calls. A call counts when it asks for an assignment under
the match key at a moment when nothing stands in its way, the match key is there and the record is
stored. Such a call always succeeds, and no other call changes a cluster.
-/

namespace RecordLinkage

open Clustering Work Tables Relation Sample

variable {config : String} {s s₀ : World}

/-! ## The history of a match key -/

/-- The assignment under a match key that a call carries out: the record, with its set of values. -/
def Call.assignment? (config : String) (c : Call) (s : World) :
    Option (RecordId × List String) :=
  match c.op with
  | .assign _ r k values =>
    if k = config ∧ c.access = .free ∧ s.tables.hasMatchKey config ∧ (s.tables.recordRow? r).isSome
    then some (r, Sorted.ofList values) else none
  | _ => none

/-- The assignments that calls carry out, the latest first. -/
def assignments (config : String) (s : World) : List Call → List (RecordId × List String)
  | [] => []
  | c :: rest => assignments config (c.perform s) rest ++ (c.assignment? config s).toList

/-- A chain of assigned sets, each sharing a value with the next, leads from one value to the
other. -/
def Chained (H : List (RecordId × List String)) : String → String → Prop :=
  TransGen fun v w ↦ ∃ e ∈ H, v ∈ e.2 ∧ w ∈ e.2

/-- A call assigns a record under the match key, or leaves the match key alone. -/
def Call.Concerns (config : String) (c : Call) : Prop :=
  c.op.Avoids config ∨ ∃ now r values, c.op = .assign now r config values

theorem check_eq_ok_iff {access : Access} : access.check = .ok () ↔ access = .free := by
  rcases access with ⟨_ | _, _ | _⟩ <;> simp [Access.check, Access.free]

/-- A transaction fails, or its body succeeds and nothing stands in its way. -/
private theorem transaction_cases {w : Work Unit} (hgrows : Respects Grows w) (access : Access)
    (s : World) :
    (((transaction access w).go s).2.tables = s.tables ∧ Grows s ((transaction access w).go s).2 ∧
        ¬(access = .free ∧ ∃ s', w.go s = (.ok (), s'))) ∨
      access = .free ∧ ∃ s', w.go s = (.ok (), s') ∧ ((transaction access w).go s).2 = s' := by
  rcases hgo : (transaction access w).go s with ⟨f | ⟨⟩, s'⟩
  · obtain ⟨ht, hg⟩ := transaction_error hgrows hgo
    refine Or.inl ⟨ht, hg, ?_⟩
    rintro ⟨hfree, s'', hw⟩
    rw [go_transaction, check_eq_ok_iff.mpr hfree] at hgo
    rw [go_atomically_ok.mpr hw] at hgo
    exact nomatch (Prod.mk.inj hgo).1
  · rw [go_transaction] at hgo
    rcases hcheck : access.check with f | ⟨⟩
    · simp only [hcheck, Prod.mk.injEq, reduceCtorEq, false_and] at hgo
    · simp only [hcheck] at hgo
      exact Or.inr ⟨check_eq_ok_iff.mp hcheck, s', go_atomically_ok.mp hgo, rfl⟩

private theorem quietly_ok_iff {α : Type} {w : Work α} {s s' : World} :
    (Operation.quietly w).go s = (.ok (), s') ↔ ∃ a, w.go s = (.ok a, s') := by
  rw [Operation.quietly, go_bind_ok]
  constructor
  · rintro ⟨a, s₁, hw, hgo⟩
    exact ⟨a, hw.trans (by rw [(Prod.mk.inj hgo).2])⟩
  · rintro ⟨a, hw⟩
    exact ⟨a, s', hw, rfl⟩

/-! ## One call -/

/-- What has become of a match key after a call. -/
structure Follows (config : String) (c : Call) (s : World) : Prop where
  orderly : (c.perform s).Orderly
  course : Course config s (c.assignment? config s).toList (c.perform s)

private theorem follows_of_apart {c : Call} (hnone : c.assignment? config s = none)
    (h : Apart config s (c.perform s)) (ho : s.Orderly)
    (hids : (c.perform s).ids.next < idLimit) : Follows config c s := by
  obtain ⟨ho', hs⟩ := h.2 hids.le ho
  refine ⟨ho', ?_⟩
  rw [hnone]
  exact .spare .start hs

private theorem assignment?_of_avoids {c : Call} (hc : c.op.Avoids config) (s : World) :
    c.assignment? config s = none := by
  rw [Call.assignment?]
  split
  · next now r k values hop =>
    rw [hop] at hc
    exact if_neg fun h ↦ hc h.1
  · rfl

theorem perform_grows {c : Call} (hc : c.Concerns config) (s : World) :
    Grows s (c.perform s) := by
  rcases hc with hc | ⟨now, r, values, hop⟩
  · exact (respects_apart hc c.access s).1
  · have hw := Operation.respects_transaction_quietly Lasting.grows
      (assign_grows now r config (Sorted.ofList values)).achieves
      (assign_grows now r config (Sorted.ofList values)) c.access
    rw [Call.perform, hop]
    exact hw s

/-- **One call adds its assignment to the history.** -/
theorem follows_perform {c : Call} (hc : c.Concerns config) (ho : s.Orderly)
    (hids : (c.perform s).ids.next < idLimit) : Follows config c s := by
  rcases hc with hc | ⟨now, r, values, hop⟩
  · exact follows_of_apart (assignment?_of_avoids hc s) (respects_apart hc c.access s) ho hids
  · have hgrows : Respects Grows
        (Operation.quietly (Clustering.assign now r config (Sorted.ofList values))) :=
      Operation.respects_quietly Lasting.grows (assign_grows now r config _)
    have hperform : c.perform s = ((transaction c.access (Operation.quietly
        (Clustering.assign now r config (Sorted.ofList values)))).go s).2 := by
      rw [Call.perform, hop]
      rfl
    have hassignment : c.assignment? config s = if c.access = .free ∧
        s.tables.hasMatchKey config = true ∧ (s.tables.recordRow? r).isSome = true
        then some (r, Sorted.ofList values) else none := by
      simp only [Call.assignment?, hop, true_and]
    rcases transaction_cases hgrows c.access s with ⟨ht, hg, hno⟩ | ⟨hfree, s', hw, heq⟩
    · -- The call fails, so something that an assignment needs is missing.
      rw [← hperform] at ht hg
      have hlt : s.ids.next < idLimit := hg.trans_lt hids
      refine follows_of_apart ?_ ((lasting_apart config).idle ht hg) ho hids
      rw [hassignment, if_neg]
      rintro ⟨hfree, hkey, hr⟩
      obtain ⟨a, s', hgo⟩ := exists_assign now ho.form hkey (stores_iff.mpr hr)
        (Sorted.nodup_ofList values) (ho.fresh_mark hlt)
      exact hno ⟨hfree, s', quietly_ok_iff.mpr ⟨a, hgo⟩⟩
    · rw [← hperform] at heq
      obtain ⟨a, hgo⟩ := quietly_ok_iff.mp hw
      rw [← heq] at hgo
      have ha := assigned_of_ok ho.form hgo
      have hlt : s.ids.next < idLimit := ha.ids_le.trans_lt hids
      refine ⟨((assign_keepsOrder now r config _) hgo).2 hids.le ho, ?_⟩
      rw [hassignment, if_pos ⟨hfree, ha.hasMatchKey, stores_iff.mp ha.stores⟩]
      exact .assign .start ha (ho.record_lt r ha.stores) hlt

/-! ## A run of calls -/

theorem run_grows {calls : List Call} (hcalls : ∀ c ∈ calls, c.Concerns config) (s : World) :
    Grows s (run s calls) := by
  induction calls generalizing s with
  | nil => exact Nat.le_refl _
  | cons c rest ih =>
    have hc := perform_grows (hcalls c List.mem_cons_self) s
    exact hc.trans (ih (fun c hc ↦ hcalls c (List.mem_cons_of_mem _ hc)) _)

/-- **The history of a run is the history of its calls.** -/
theorem course_run {calls : List Call} (hcalls : ∀ c ∈ calls, c.Concerns config)
    (ho : s.Orderly) (hids : (run s calls).ids.next < idLimit) :
    (run s calls).Orderly ∧ Course config s (assignments config s calls) (run s calls) := by
  induction calls generalizing s with
  | nil => exact ⟨ho, .start⟩
  | cons c rest ih =>
    have hrest : ∀ c ∈ rest, c.Concerns config := fun c hc ↦ hcalls c (List.mem_cons_of_mem _ hc)
    have hlt : (c.perform s).ids.next < idLimit := (run_grows hrest _).trans_lt hids
    have hc := follows_perform (hcalls c List.mem_cons_self) ho hlt
    obtain ⟨ho', hcourse⟩ := ih hrest hc.orderly hids
    exact ⟨ho', hc.course.trans hcourse⟩

/-! ## The partition -/

theorem linked_iff_chained {t₀ : Tables} (h : ∀ x v, ¬t₀.Owns config x v)
    (H : List (RecordId × List String)) (v w : String) :
    Linked t₀ config H v w ↔ Chained H v w := by
  have hties : Tie t₀ config H = fun v w ↦ ∃ e ∈ H, v ∈ e.2 ∧ w ∈ e.2 := by
    funext v w
    have hno : ¬∃ x, t₀.Owns config x v ∧ t₀.Owns config x w := fun ⟨x, hx, _⟩ ↦ h x v hx
    exact propext ⟨fun ht ↦ ht.resolve_left hno, Or.inr⟩
  rw [Linked, hties, Chained]

/-- **Assignments compute connected components.** From a moment at which a match key has neither
owners nor members, let calls follow that assign records under it, or leave it alone. Then a value
is owned exactly when it was assigned; two owned values have one owner exactly when a chain of
assigned sets links them; and a record that is stored and was assigned is a member of the cluster
that owns its latest values, or, if these are none, the only member of a cluster that owns
nothing. -/
theorem assignments_compute_components {calls : List Call} (ho : s₀.Orderly)
    (howners : ∀ o ∈ s₀.tables.owners, o.config ≠ config)
    (hmembers : ∀ m ∈ s₀.tables.members, m.config ≠ config)
    (hcalls : ∀ c ∈ calls, c.Concerns config)
    (hids : (run s₀ calls).ids.next < idLimit) :
    let t := (run s₀ calls).tables
    let H := assignments config s₀ calls
    (∀ v, (∃ x, t.ownerOf? config v = .ok (some x)) ↔ ∃ e ∈ H, v ∈ e.2) ∧
    (∀ v w x y, t.ownerOf? config v = .ok (some x) → t.ownerOf? config w = .ok (some y) →
      (x = y ↔ Chained H v w)) ∧
    ∀ r V, (t.recordRow? r).isSome → H.lookup r = some V →
      ∃ x, t.clusterOf? r config = .ok (some x) ∧
        (∀ v ∈ V, t.ownerOf? config v = .ok (some x)) ∧
        (V = [] → (∀ v, t.ownerOf? config v ≠ .ok (some x)) ∧
          ∀ q, t.clusterOf? q config = .ok (some x) → q = r) := by
  intro t H
  have hno : ∀ x v, ¬s₀.tables.Owns config x v := fun x v hx ↦ howners _ hx rfl
  have hnone : ∀ x q, ¬s₀.tables.Holds config x q := fun x q hx ↦ hmembers _ hx rfl
  have hstart : Numbered config s₀ :=
    ⟨fun x v hx ↦ absurd hx (hno x v), fun x q hx ↦ absurd hx (hnone x q),
      fun x q hx ↦ absurd hx (hnone x q)⟩
  obtain ⟨ho', hcourse⟩ := course_run hcalls ho hids
  have htracks := hcourse.tracks ho.form hstart
  -- The tables are well formed at the end, so what is looked up is what stands in a row.
  have howner : ∀ v x, t.ownerOf? config v = .ok (some x) ↔ t.Owns config x v :=
    fun v x ↦ ho'.form.ownerOf?_eq_some_iff
  have hcluster : ∀ q x, t.clusterOf? q config = .ok (some x) ↔ t.Holds config x q :=
    fun q x ↦ ho'.form.clusterOf?_eq_some_iff
  simp only [howner, hcluster, ne_eq]
  refine ⟨fun v ↦ ?_, fun v w x y hx hy ↦ ?_, fun r V hr hl ↦ ?_⟩
  · rw [htracks.owned v]
    exact ⟨fun h ↦ h.resolve_left fun ⟨x, hx⟩ ↦ hno x v hx, Or.inr⟩
  · rw [htracks.linked hx hy]
    exact linked_iff_chained hno H v w
  · obtain ⟨x, hx⟩ := htracks.present (stores_iff.mpr hr) (Or.inl (by rw [hl]; rfl))
    refine ⟨x, hx, htracks.latest hx hl, ?_⟩
    rintro rfl
    exact (htracks.alone hx hl).2

theorem bridge_joins_components :
    (∃ x, (run blank bridge).tables.ownerOf? "isbn" "x" = .ok (some x)) ∧
    (∀ x y, (run blank bridge).tables.ownerOf? "isbn" "x" = .ok (some x) →
      (run blank bridge).tables.ownerOf? "isbn" "z" = .ok (some y) → x = y) ∧
    ∃ x, (run blank bridge).tables.clusterOf? ⟨Uuid.ofNat 1⟩ "isbn" = .ok (some x) ∧
      ∀ v ∈ ["y", "z"], (run blank bridge).tables.ownerOf? "isbn" v = .ok (some x) := by
  have hids : (run blank bridge).ids.next < idLimit := by decide +kernel
  have hcalls : ∀ c ∈ bridge, c.Concerns "isbn" := by
    simp [bridge, Call.Concerns, Operation.Avoids]
  obtain ⟨howned, hlinked, hmembers⟩ := assignments_compute_components
    (World.orderly_of_empty rfl) (by simp [blank, Tables.empty])
    (by simp [blank, Tables.empty]) hcalls hids
  have hhistory : assignments "isbn" blank bridge =
      [(⟨Uuid.ofNat 1⟩, ["y", "z"]), (⟨Uuid.ofNat 1⟩, ["z"]), (⟨Uuid.ofNat 0⟩, ["x", "y"])] := by
    decide +kernel
  have hchain : Chained (assignments "isbn" blank bridge) "x" "z" := by
    rw [hhistory]
    refine TransGen.tail (.single ?_ : TransGen _ "x" "y") ?_
    · exact ⟨(⟨Uuid.ofNat 0⟩, ["x", "y"]), by simp, by simp, by simp⟩
    · exact ⟨(⟨Uuid.ofNat 1⟩, ["y", "z"]), by simp, by simp, by simp⟩
  refine ⟨(howned "x").mpr ?_, fun x y hx hy ↦ (hlinked "x" "z" x y hx hy).mpr hchain, ?_⟩
  · rw [hhistory]
    exact ⟨(⟨Uuid.ofNat 0⟩, ["x", "y"]), by simp, by simp⟩
  · obtain ⟨x, hx, hvalues, -⟩ := hmembers ⟨Uuid.ofNat 1⟩ ["y", "z"] (by decide +kernel)
      (by rw [hhistory]; rfl)
    exact ⟨x, hx, hvalues⟩

end RecordLinkage
