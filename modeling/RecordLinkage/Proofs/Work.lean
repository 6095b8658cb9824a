import Mathlib.Order.Nat
import RecordLinkage.Clustering.Reindex
import RecordLinkage.Ingest.Ingester

/-!
# Laws of work

What each building block of work does to the world, as equations, and two ways to say what a whole
piece of work does to it.

`Achieves R w` is about the runs of `w` that succeed, `Respects R w` about all of them. A relation
that holds over idle stretches and over one stretch after the other carries both through sequences
of work. Work that is done atomically turns the first into the second: a run that fails leaves the
tables alone, so all that is left of it is identifiers that are gone.
-/

namespace RecordLinkage

namespace Work

variable {α β : Type}

/-! ## Building blocks -/

@[simp] theorem go_pure (a : α) (s : World) : (pure a : Work α).go s = (.ok a, s) := rfl

theorem go_bind (w : Work α) (f : α → Work β) (s : World) :
    (w >>= f).go s = match w.go s with
      | (.ok a, s') => (f a).go s'
      | (.error e, s') => (.error e, s') := by
  simp only [go, ExceptT.run, bind, ExceptT.bind, ExceptT.mk, StateT.bind, ExceptT.bindCont]
  rcases w s with ⟨_ | _, _⟩ <;> rfl

/-- A sequence succeeds when both its parts do. -/
theorem go_bind_ok {w : Work α} {f : α → Work β} {s s'' : World} {b : β} :
    (w >>= f).go s = (.ok b, s'') ↔
      ∃ a s', w.go s = (.ok a, s') ∧ (f a).go s' = (.ok b, s'') := by
  rw [go_bind]
  rcases h : w.go s with ⟨e | a, s'⟩
  · simp
  · simp only [Prod.mk.injEq, Except.ok.injEq]
    exact ⟨fun h ↦ ⟨a, s', ⟨rfl, rfl⟩, h⟩, by rintro ⟨_, _, ⟨rfl, rfl⟩, h⟩; exact h⟩

/-- Work for one element after the other succeeds when it does for each of them. -/
theorem go_mapM_cons_ok {f : α → Work β} {x : α} {rest : List α} {s s'' : World} {ys : List β} :
    ((x :: rest).mapM f).go s = (.ok ys, s'') ↔ ∃ y s' ys', (f x).go s = (.ok y, s') ∧
      (rest.mapM f).go s' = (.ok ys', s'') ∧ ys = y :: ys' := by
  rw [List.mapM_cons, go_bind_ok]
  constructor
  · rintro ⟨y, s', hfirst, hgo⟩
    obtain ⟨ys', s₂, hrest, hgo⟩ := go_bind_ok.mp hgo
    obtain ⟨hys, rfl⟩ := Prod.mk.inj hgo
    exact ⟨y, s', ys', hfirst, hrest, (Except.ok.inj hys).symm⟩
  · rintro ⟨y, s', ys', hfirst, hrest, rfl⟩
    exact ⟨y, s', hfirst, go_bind_ok.mpr ⟨ys', s'', hrest, rfl⟩⟩

@[simp] theorem go_fail (f : Fault) (s : World) : (fail f : Work α).go s = (.error f, s) := rfl

@[simp] theorem go_ofExcept (x : Except Fault α) (s : World) : (ofExcept x).go s = (x, s) := by
  cases x <;> rfl

@[simp] theorem go_query (q : Tables → Except Fault α) (s : World) :
    (query q).go s = (q s.tables, s) :=
  go_ofExcept _ _

@[simp] theorem go_change (f : Tables → Tables) (s : World) :
    (change f).go s = (.ok (), { s with tables := f s.tables }) := rfl

theorem go_statement (st : Statement α) (s : World) :
    (statement st).go s = match st s.tables with
      | .ok (a, t) => (.ok a, { s with tables := t })
      | .error f => (.error f, s) := by
  change Work.go (match st s.tables with | .ok (a, tables) => _ | .error f => _) s = _
  rcases st s.tables with _ | ⟨_, _⟩ <;> rfl

theorem go_statement_ok {st : Statement α} {s s' : World} {a : α} :
    (statement st).go s = (.ok a, s') ↔
      ∃ t, st s.tables = .ok (a, t) ∧ s' = { s with tables := t } := by
  rw [go_statement]
  rcases st s.tables with e | ⟨a', t⟩
  · simp
  · simp only [Prod.mk.injEq, Except.ok.injEq]
    exact ⟨by rintro ⟨rfl, rfl⟩; exact ⟨t, ⟨rfl, rfl⟩, rfl⟩, by rintro ⟨_, ⟨rfl, rfl⟩, rfl⟩; simp⟩

@[simp] theorem go_update (f : Tables → α × Tables) (s : World) :
    (update f).go s = (.ok (f s.tables).1, { s with tables := (f s.tables).2 }) := by
  rw [update, go_statement]

@[simp] theorem go_mint (s : World) :
    mint.go s = (.ok (Uuid.ofNat s.ids.next), { s with ids := ⟨s.ids.next + 1⟩ }) := rfl

@[simp] theorem go_method (tenant : TenantId) (k : MatchKey) (s : World) :
    (method tenant k).go s
      = ((s.cache.get tenant k).1, { s with cache := (s.cache.get tenant k).2 }) :=
  go_ofExcept _ _

theorem go_atomically (w : Work α) (s : World) :
    (atomically w).go s = match w.go s with
      | (.ok a, s') => (.ok a, s')
      | (.error f, s') => (.error f, { s' with tables := s.tables }) := rfl

theorem go_atomically_ok {w : Work α} {s s' : World} {a : α} :
    (atomically w).go s = (.ok a, s') ↔ w.go s = (.ok a, s') := by
  rw [go_atomically]
  rcases w.go s with ⟨_ | _, _⟩ <;> simp

@[simp] theorem go_outcome (w : Work α) (s : World) :
    (outcome w).go s = (.ok (w.go s).1, (w.go s).2) := rfl

theorem go_transaction (access : Access) (w : Work α) (s : World) :
    (transaction access w).go s = match access.check with
      | .ok () => (atomically w).go s
      | .error f => (.error f, s) := by
  rw [transaction, go_bind, go_ofExcept]
  cases access.check <;> rfl

/-! ## Runs -/

/-- Every run that succeeds leads from one world to a related one. -/
def Achieves (R : World → World → Prop) (w : Work α) : Prop :=
  ∀ ⦃s a s'⦄, w.go s = (.ok a, s') → R s s'

/-- Every run, whether it succeeds or not, leads from one world to a related one. -/
def Respects (R : World → World → Prop) (w : Work α) : Prop := ∀ s, R s (w.go s).2

/-- A relation between worlds that holds over stretches of time: over one after the other, and over
those in which the tables stay as they are. -/
structure Lasting (R : World → World → Prop) : Prop where
  /-- One stretch after the other. -/
  trans : ∀ {s s' s''}, R s s' → R s' s'' → R s s''
  /-- Nothing happens to the tables, but identifiers may be taken. -/
  idle : ∀ {s s' : World}, s'.tables = s.tables → s.ids.next ≤ s'.ids.next → R s s'

namespace Lasting

variable {R : World → World → Prop}

theorem refl (h : Lasting R) (s : World) : R s s := h.idle rfl (Nat.le_refl _)

/-- The least lasting relation is about identifiers only. -/
theorem grows : Lasting fun s s' ↦ s.ids.next ≤ s'.ids.next where
  trans h h' := Nat.le_trans h h'
  idle _ h := h

end Lasting

namespace Respects

variable {R : World → World → Prop} {w : Work α}

theorem achieves (h : Respects R w) : Achieves R w := by
  intro s a s' hgo
  have := h s
  rwa [hgo] at this

theorem pure (hR : Lasting R) (a : α) : Respects R (Pure.pure a : Work α) := fun s ↦ hR.refl s

theorem fail (hR : Lasting R) (f : Fault) : Respects R (Work.fail f : Work α) := fun s ↦ hR.refl s

theorem ofExcept (hR : Lasting R) (x : Except Fault α) : Respects R (Work.ofExcept x) := by
  intro s
  rw [go_ofExcept]
  exact hR.refl s

theorem query (hR : Lasting R) (q : Tables → Except Fault α) : Respects R (Work.query q) := by
  intro s
  rw [go_query]
  exact hR.refl s

theorem mint (hR : Lasting R) : Respects R Work.mint := fun _ ↦ hR.idle rfl (Nat.le_succ _)

theorem method (hR : Lasting R) (tenant : TenantId) (k : MatchKey) :
    Respects R (Work.method tenant k) := by
  intro s
  rw [go_method]
  exact hR.idle rfl (Nat.le_refl _)

theorem bind (hR : Lasting R) {f : α → Work β} (hw : Respects R w) (hf : ∀ a, Respects R (f a)) :
    Respects R (w >>= f) := by
  intro s
  have hs := hw s
  rw [go_bind]
  rcases hgo : w.go s with ⟨e | a, s'⟩
  · rwa [hgo] at hs
  · rw [hgo] at hs
    exact hR.trans hs (hf a s')

theorem forM (hR : Lasting R) {f : β → Work Unit} (xs : List β) (hf : ∀ x, Respects R (f x)) :
    Respects R (xs.forM f) := by
  induction xs with
  | nil => exact Respects.pure hR ()
  | cons x rest ih => exact Respects.bind hR (hf x) fun _ ↦ ih

theorem mapM (hR : Lasting R) {f : β → Work α} (xs : List β) (hf : ∀ x, Respects R (f x)) :
    Respects R (xs.mapM f) := by
  induction xs with
  | nil => exact Respects.pure hR []
  | cons x rest ih =>
    rw [List.mapM_cons]
    exact Respects.bind hR (hf x) fun _ ↦ Respects.bind hR ih fun _ ↦ Respects.pure hR _

theorem change {f : Tables → Tables}
    (h : ∀ s : World, R s { s with tables := f s.tables }) : Respects R (Work.change f) := h

theorem statement (hR : Lasting R) {st : Statement α}
    (h : ∀ s : World, ∀ a t, st s.tables = .ok (a, t) → R s { s with tables := t }) :
    Respects R (Work.statement st) := by
  intro s
  rw [go_statement]
  rcases hst : st s.tables with e | ⟨a, t⟩
  · exact hR.refl s
  · exact h s a t hst

theorem outcome (h : Respects R w) : Respects R (Work.outcome w) := h

theorem transaction (hR : Lasting R) {access : Access} (h : Respects R (Work.atomically w)) :
    Respects R (Work.transaction access w) :=
  Respects.bind hR (Respects.ofExcept hR _) fun _ ↦ h

end Respects

namespace Achieves

variable {R : World → World → Prop} {w : Work α}

theorem bind (hR : Lasting R) {f : α → Work β} (hw : Achieves R w) (hf : ∀ a, Achieves R (f a)) :
    Achieves R (w >>= f) := by
  intro s b s'' h
  obtain ⟨a, s', hgo, hgo'⟩ := go_bind_ok.mp h
  exact hR.trans (hw hgo) (hf a hgo')

theorem forM (hR : Lasting R) {f : β → Work Unit} (xs : List β)
    (hf : ∀ x ∈ xs, Achieves R (f x)) : Achieves R (xs.forM f) := by
  induction xs with
  | nil => exact (Respects.pure hR ()).achieves
  | cons x rest ih =>
    exact bind hR (hf x List.mem_cons_self) fun _ ↦ ih fun y hy ↦ hf y (List.mem_cons_of_mem x hy)

/-- A statement that cannot fail. -/
theorem update {f : Tables → α × Tables}
    (h : ∀ s : World, R s { s with tables := (f s.tables).2 }) : Achieves R (Work.update f) := by
  intro s a s' hgo
  rw [go_update] at hgo
  obtain ⟨-, rfl⟩ := Prod.mk.inj hgo
  exact h s

/-- Atomic work keeps what its successful runs achieve: the others only use up identifiers. -/
theorem atomically (hR : Lasting R) (h : Achieves R w)
    (hgrows : Respects (fun s s' ↦ s.ids.next ≤ s'.ids.next) w) :
    Respects R (Work.atomically w) := by
  intro s
  have hs := hgrows s
  rw [go_atomically]
  rcases hgo : w.go s with ⟨e | a, s'⟩
  · rw [hgo] at hs
    exact hR.idle rfl hs
  · exact h hgo

end Achieves

/-! ## Attempts -/

theorem retryFrom_succ (w : Work α) (attempt left : Nat) (s : World) :
    retryFrom (fun _ ↦ w.run) attempt (left + 1) s = match w.go s with
      | (.ok a, s') => (.ok a, s')
      | (.error f, s') =>
        if f.isRetryable then retryFrom (fun _ ↦ w.run) (attempt + 1) left s'
        else (.error f, s') := by
  rw [retryFrom]
  simp only [bind, StateT.bind]
  rw [show w.run s = w.go s from rfl]
  rcases w.go s with ⟨f | a, s'⟩
  · by_cases hf : f.isRetryable
    · simp only [hf, if_true]
    · simp only [hf]
      rfl
  · rfl

/-- What comes of attempts of which those that fail leave the tables alone: either the last one
failed, or one of them succeeded and those before it have only used up identifiers. -/
theorem go_retry {w : Work α}
    (hfail : ∀ {s f s'}, w.go s = (.error f, s') →
      s'.tables = s.tables ∧ s.ids.next ≤ s'.ids.next)
    (retries : Nat) (s : World) :
    (∃ f s', go (ExceptT.mk (retry retries fun _ ↦ w.run)) s = (.error f, s') ∧
        s'.tables = s.tables ∧ s.ids.next ≤ s'.ids.next) ∨
      ∃ s₁ a s', s₁.tables = s.tables ∧ s.ids.next ≤ s₁.ids.next ∧ w.go s₁ = (.ok a, s') ∧
        go (ExceptT.mk (retry retries fun _ ↦ w.run)) s = (.ok a, s') := by
  change (∃ f s', retryFrom (fun _ ↦ w.run) 0 retries s = (.error f, s') ∧ _) ∨
    ∃ s₁ a s', _ ∧ _ ∧ _ ∧ retryFrom (fun _ ↦ w.run) 0 retries s = (.ok a, s')
  generalize 0 = attempt
  induction retries generalizing attempt s with
  | zero =>
    change (∃ f s', w.go s = (.error f, s') ∧ _) ∨ ∃ s₁ a s', _ ∧ _ ∧ _ ∧ w.go s = (.ok a, s')
    rcases hgo : w.go s with ⟨f | a, s'⟩
    · exact Or.inl ⟨f, s', rfl, hfail hgo⟩
    · exact Or.inr ⟨s, a, s', rfl, le_refl _, hgo, rfl⟩
  | succ left ih =>
    rw [retryFrom_succ]
    rcases hgo : w.go s with ⟨f | a, s'⟩
    · obtain ⟨htables, hgrows⟩ := hfail hgo
      by_cases hf : f.isRetryable
      · simp only [hf, if_true]
        rcases ih s' (attempt + 1) with ⟨f', s'', h, ht, hg⟩ | ⟨s₁, a, s'', ht, hg, h, h'⟩
        · exact Or.inl ⟨f', s'', h, ht.trans htables, hgrows.trans hg⟩
        · exact Or.inr ⟨s₁, a, s'', ht.trans htables, hgrows.trans hg, h, h'⟩
      · simp only [hf]
        exact Or.inl ⟨f, s', rfl, htables, hgrows⟩
    · exact Or.inr ⟨s, a, s', rfl, le_refl _, hgo, rfl⟩

/-- If all attempts fail, the last of them says why. -/
theorem last_of_retry_error {R : World → World → Prop} {w : Work α} (hR : Lasting R)
    (hfail : ∀ {s f s'}, w.go s = (.error f, s') → R s s') {retries : Nat} {s s' : World}
    {f : Fault} (hgo : go (ExceptT.mk (retry retries fun _ ↦ w.run)) s = (.error f, s')) :
    ∃ s₁, R s s₁ ∧ w.go s₁ = (.error f, s') := by
  change retryFrom (fun _ ↦ w.run) 0 retries s = (.error f, s') at hgo
  generalize 0 = attempt at hgo
  induction retries generalizing attempt s with
  | zero => exact ⟨s, hR.refl s, hgo⟩
  | succ left ih =>
    rw [retryFrom_succ] at hgo
    rcases hw : w.go s with ⟨f' | a, s₁⟩ <;> rw [hw] at hgo
    · by_cases hf : f'.isRetryable
      · simp only [hf, if_true] at hgo
        obtain ⟨s₂, hs₂, hlast⟩ := ih (attempt + 1) hgo
        exact ⟨s₂, hR.trans (hfail hw) hs₂, hlast⟩
      · simp only [hf] at hgo
        exact ⟨s, hR.refl s, hw.trans hgo⟩
    · cases (Prod.mk.inj hgo).1

private theorem respects_retryFrom {R : World → World → Prop} {w : Work α} (hR : Lasting R)
    (hw : Respects R w) (left attempt : Nat) (s : World) :
    R s (retryFrom (fun _ ↦ w.run) attempt left s).2 := by
  induction left generalizing attempt s with
  | zero => exact hw s
  | succ left ih =>
    have hs := hw s
    rw [retryFrom_succ]
    rcases hgo : w.go s with ⟨f | a, s'⟩
    · rw [hgo] at hs
      by_cases hf : f.isRetryable
      · simp only [hf, if_true]
        exact hR.trans hs (ih (attempt + 1) s')
      · simp only [hf]
        exact hs
    · rwa [hgo] at hs

/-- The first attempt decides, if it succeeds. If it does not, there may be others after it. -/
theorem go_retry_first {R : World → World → Prop} {w : Work α} (hR : Lasting R)
    (hw : Respects R w) (retries : Nat) (s : World) :
    (∃ a s', w.go s = (.ok a, s') ∧
        go (ExceptT.mk (retry retries fun _ ↦ w.run)) s = (.ok a, s')) ∨
      ∃ f s₁, w.go s = (.error f, s₁) ∧
        R s₁ (go (ExceptT.mk (retry retries fun _ ↦ w.run)) s).2 := by
  change (∃ a s', _ ∧ retryFrom (fun _ ↦ w.run) 0 retries s = (.ok a, s')) ∨
    ∃ f s₁, _ ∧ R s₁ (retryFrom (fun _ ↦ w.run) 0 retries s).2
  rcases retries with - | left
  · change (∃ a s', _ ∧ w.go s = (.ok a, s')) ∨ ∃ f s₁, _ ∧ R s₁ (w.go s).2
    rcases hgo : w.go s with ⟨f | a, s'⟩
    · exact Or.inr ⟨f, s', rfl, hR.refl s'⟩
    · exact Or.inl ⟨a, s', rfl, rfl⟩
  · rw [retryFrom_succ]
    rcases hgo : w.go s with ⟨f | a, s'⟩
    · refine Or.inr ⟨f, s', rfl, ?_⟩
      by_cases hf : f.isRetryable
      · simp only [hf, if_true]
        exact respects_retryFrom hR hw left 1 s'
      · simp only [hf]
        exact hR.refl s'
    · exact Or.inl ⟨a, s', rfl, rfl⟩

end Work

end RecordLinkage
