import RecordLinkage.Number.Integer
import RecordLinkage.Proofs.History.Sound

/-!
# Datestamps from a clock of 64 bits

What a clock says is a 64-bit number. Then no mark is dated before the least of these: a mark is
dated when it is made or advanced, and then with the reading of the clock or later. So a listing
from the least 64-bit number on leaves no mark out.
-/

namespace RecordLinkage

open Clustering Work Tables

variable {s s' : World} {low now : Datestamp} {t t' : Tables}

/-- No mark is dated before a time. -/
def Tables.DatedFrom (low : Datestamp) (t : Tables) : Prop := ∀ m ∈ t.marks, low ≤ m.datestamp

theorem Tables.DatedFrom.advanced (h : t.DatedFrom low) (hlow : low ≤ now)
    (changed : ClusterId → Bool) : ∀ m ∈ t.marks.map (advanced changed now), low ≤ m.datestamp := by
  intro m hm
  obtain ⟨m₀, hm₀, rfl⟩ := List.mem_map.mp hm
  rw [Tables.advanced]
  split_ifs
  · exact hlow.trans (Datestamp.le_advance_now _ _)
  · exact h m₀ hm₀

/-- Where no mark was dated before a time, none is afterwards. -/
def KeepsDates (low : Datestamp) (s s' : World) : Prop :=
  s.tables.Wellformed ∧ s.tables.DatedFrom low → s'.tables.Wellformed ∧ s'.tables.DatedFrom low

theorem lasting_keepsDates (low : Datestamp) : Lasting (KeepsDates low) where
  trans h h' := h' ∘ h
  idle htables _ h := htables ▸ h

theorem assign_keepsDates (hlow : low ≤ now) (r : RecordId) (config : String)
    (values : List String) : Achieves (KeepsDates low) (assign now r config values) := by
  rintro s a s' hgo ⟨hform, hdated⟩
  refine ⟨(assign_keepsForm now r config values).achieves hgo hform, ?_⟩
  obtain ⟨changed, new, -, hnew, hmarks⟩ := (assigned_of_ok hform hgo).marks
  intro m hm
  rw [hmarks] at hm
  rcases List.mem_append.mp hm with hm | hm
  · exact hdated.advanced hlow changed m hm
  · rcases hnew with ⟨rfl, -⟩ | ⟨rfl, -, -⟩
    · exact absurd hm List.not_mem_nil
    · rw [List.mem_singleton.mp hm]
      exact hlow

/-- A statement after which there are no other marks than before. -/
theorem statement_keepsDates {α : Type} {st : Statement α}
    (h : ∀ {t a t'}, t.Wellformed → st t = .ok (a, t') → t'.Wellformed ∧ t'.marks ⊆ t.marks) :
    Achieves (KeepsDates low) (Work.statement st) := by
  rintro s a s' hgo ⟨hform, hdated⟩
  obtain ⟨t, hst, rfl⟩ := go_statement_ok.mp hgo
  obtain ⟨hform', hmarks⟩ := h hform hst
  exact ⟨hform', fun m hm ↦ hdated m (hmarks hm)⟩

theorem update_keepsDates {α : Type} {f : Tables → α × Tables}
    (h : ∀ t, t.Wellformed → (f t).2.Wellformed ∧ (f t).2.marks ⊆ t.marks) :
    Achieves (KeepsDates low) (Work.update f) := by
  refine statement_keepsDates fun {t a t'} hform hst ↦ ?_
  obtain rfl : (f t).2 = t' := (Prod.mk.inj (Except.ok.inj hst)).2
  exact h t hform

theorem enroll_keepsDates (key : RecordKey) (payload : Json) :
    Achieves (KeepsDates low) (Ingester.enroll key payload) := by
  rintro s result s' hgo ⟨hform, hdated⟩
  obtain ⟨t, -, rfl, hst⟩ := Ingester.enroll_ok hgo
  obtain ⟨hmarks, -, -, -⟩ := Ingester.storeRecord_frame hst
  exact ⟨hform.storeRecord hst, fun m hm ↦ hdated m (hmarks ▸ hm)⟩

theorem deleteRecords_keepsDates {α : Type} {f : Tables → α × Tables} (fits : RecordRow → Bool)
    (hlow : low ≤ now) (hf : ∀ t, (f t).2 = (t.deleteRecords fits now).2) :
    Achieves (KeepsDates low) (Work.update f) := by
  rintro s a s' hgo ⟨hform, hdated⟩
  obtain ⟨t, hst, rfl⟩ := go_statement_ok.mp hgo
  obtain rfl : (f _).2 = t := (Prod.mk.inj (Except.ok.inj hst)).2
  rw [hf]
  exact ⟨hform.deleteRecords fits now, hdated.advanced hlow _⟩

open Operation in
/-- **What the engine does dates no mark before the clock**, whether it succeeds or not. -/
theorem respects_keepsDates {op : Operation} (hop : op.IsEngine)
    (hnow : ∀ now ∈ op.reading?, low ≤ now) (access : Access) :
    Respects (KeepsDates low) (op.work access) := by
  have hL := lasting_keepsDates low
  cases op with
  | insertMatchKey k =>
    refine Achieves.transaction hL (statement_keepsDates fun hform hst ↦ ?_) (grows_statement _)
      access
    have hform' := hform.insertMatchKey hst
    obtain ⟨-, rfl⟩ := insertMatchKey_ok_iff.mp hst
    exact ⟨hform', List.Subset.refl _⟩
  | updateMatchKey k =>
    refine respects_transaction_quietly hL (update_keepsDates fun t hform ↦ ?_) (grows_statement _)
      access
    exact ⟨hform.updateMatchKey k, List.Subset.refl _⟩
  | deleteMatchKey id =>
    refine respects_transaction_quietly hL (update_keepsDates fun t hform ↦ ?_) (grows_statement _)
      access
    exact ⟨hform.deleteMatchKey id, fun m ↦ List.mem_of_mem_filter⟩
  | clear config =>
    have hupdate : Achieves (KeepsDates low) (update fun t ↦ ((), t.clear config)) :=
      update_keepsDates fun t hform ↦ ⟨hform.clear config, fun m ↦ List.mem_of_mem_filter⟩
    have hclear : Achieves (KeepsDates low) (change (·.clear config)) := hupdate
    exact hclear.transaction hL (grows_change _) access
  | storeRecord key payload =>
    exact respects_transaction_quietly hL (enroll_keepsDates key payload)
      (Ingester.enroll_grows key payload) access
  | deleteRecord | deleteSource | assign | rebuild | ingest =>
    exact respects_timed hL (by trivial) (by rfl)
      (fun c _ r values ↦ assign_keepsDates (hnow _ rfl) r c values) enroll_keepsDates
      (fun fits ↦ deleteRecords_keepsDates fits (hnow _ rfl)) access
  | start | advance | merge | insertValue | setMember => exact hop.elim

/-- The worlds that the engine leads to from empty tables, while the clock says 64-bit numbers. -/
def Clocked (s : World) : Prop :=
  ∃ s₀ calls, s₀.tables = Tables.empty ∧ s = run s₀ calls ∧ ∀ c ∈ calls, c.op.IsEngine ∧
    ∀ now ∈ c.op.reading?, Number.leastSigned ≤ now ∧ now ≤ Number.greatestSigned

namespace Clocked

theorem reachable (h : Clocked s) : Reachable s := by
  obtain ⟨s₀, calls, hempty, hs, hcalls⟩ := h
  refine ⟨s₀, calls, hempty, hs, fun c hc ↦ ⟨(hcalls c hc).1, fun now hnow ↦ ?_⟩⟩
  exact Int.lt_add_one_of_le ((hcalls c hc).2 now hnow).2

theorem run_keepsDates {calls : List Call} (hcalls : ∀ c ∈ calls, c.op.IsEngine ∧
    ∀ now ∈ c.op.reading?, low ≤ now) (s : World) : KeepsDates low s (run s calls) := by
  induction calls generalizing s with
  | nil => exact (lasting_keepsDates low).refl s
  | cons c rest ih =>
    obtain ⟨hop, hnow⟩ := hcalls c List.mem_cons_self
    have hc : KeepsDates low s (c.perform s) := respects_keepsDates hop hnow c.access s
    exact (lasting_keepsDates low).trans hc
      (ih (fun c hc ↦ hcalls c (List.mem_cons_of_mem _ hc)) _)

/-- **No mark is dated before the least 64-bit number.** -/
theorem dated (h : Clocked s) : s.tables.DatedFrom Number.leastSigned := by
  obtain ⟨s₀, calls, hempty, rfl, hcalls⟩ := h
  refine (run_keepsDates (fun c hc ↦ ⟨(hcalls c hc).1, fun now hnow ↦
    ((hcalls c hc).2 now hnow).1⟩) s₀ ⟨?_, ?_⟩).2
  · rw [hempty]
    exact Tables.wellformed_empty
  · rw [hempty]
    exact fun m hm ↦ absurd hm List.not_mem_nil

end Clocked

end RecordLinkage
