import RecordLinkage.Proofs.Clustering.CleanRebuild
import RecordLinkage.Proofs.History.Failure
import RecordLinkage.Proofs.Ingest.Dealing

/-!
# The journal of a match key

Under a match key records are assigned by hand, by submissions, and by computing the match key anew.
The journal lists all these assignments, the latest first, since the match key was last cleared or
deleted. It is read off the calls and the worlds in which they are made: what an ingester stores it
assigns with the values of the payload, and computing anew assigns all records by ascending
identifier, except those whose payloads the method refuses.

`Recorded` says that a journal is right: that it is the history of the match key from a moment at
which it had neither owners nor members. So the clusters are at any time the partition that the
journal describes, and the latest entry of a record says where the record is.
-/

namespace RecordLinkage

open Clustering Work Tables

variable {config : String} {s s' : World} {handle : Handle} {limit : ℕ} {now : Datestamp}
  {access : Access} {c : Call} {H : List (RecordId × List String)} {r : RecordId} {V : List String}

/-! ## What is assigned -/

/-- The assignments of computing a match key anew. All payloads have to be read for it. -/
def reassigned (access : Access) (handle : Handle) (config : String) (limit : ℕ) (now : Datestamp)
    (s : World) : List (RecordId × List String) :=
  match s.tables.matchKey? config, (ascending s.tables.records).mapM RecordRow.read with
  | .ok (some k), .ok records =>
    match (s.cache.get handle.tenant k).1 with
    | .ok kept =>
      if access = .free ∧ 0 < handle.pageSize then
        (Recipe.accepted ⟨now, config, kept.method, limit⟩ records).reverse
      else []
    | .error _ => []
  | _, _ => []

/-- The assignments of a submission that stores a record. The record is known by its key. -/
def Ingester.assigned (i : Ingester) (config : String) (now : Datestamp) (submission : Submission)
    (s : World) : List (RecordId × List String) :=
  match i.deed? s.tables submission with
  | some (.store key payload) =>
    match ((i.ingest now submission).go s).2.tables.recordOf? key with
    | some ⟨.intact r, _, _⟩ => (i.sets config payload).map (r, ·)
    | _ => []
  | _ => []

/-- The assignments under a match key that a call carries out, the latest first. -/
def Call.assigned (config : String) (c : Call) (s : World) : List (RecordId × List String) :=
  match c.op with
  | .rebuild handle k limit now =>
    if k = config then reassigned c.access handle config limit now s else []
  | .ingest i now submission => { i with access := c.access }.assigned config now submission s
  | _ => (c.assignment? config s).toList

/-- A call removes all that belongs to a match key. -/
def Call.wipes (config : String) (c : Call) : Bool :=
  match c.op with
  | .clear k | .deleteMatchKey k => k = config && c.access = .free
  | _ => false

/-- The journal after a call. -/
def Call.enter (config : String) (c : Call) (s : World) (H : List (RecordId × List String)) :
    List (RecordId × List String) :=
  if c.wipes config then [] else c.assigned config s ++ H

/-- A journal that is continued with calls. -/
def journalFrom (config : String) :
    World → List (RecordId × List String) → List Call → List (RecordId × List String)
  | _, H, [] => H
  | s, H, c :: rest => journalFrom config (c.perform s) (c.enter config s H) rest

/-- **All assignments under a match key since it was last empty**, the latest first. -/
def journal (config : String) (s : World) (calls : List Call) : List (RecordId × List String) :=
  journalFrom config s [] calls

/-! ## Computing anew -/

theorem course_of_idles (ho : s.Orderly) (h : Idles s s') (hids : s'.ids.next ≤ idLimit) :
    Course config s [] s' :=
  .spare .start (((lasting_apart config).idle h.1 h.2).2 hids ho).2

/-- Nothing is read with pages of no records. -/
theorem go_reindexAll_zero (recipe : Recipe) (s : World) :
    (reindexAll recipe 0).go s = (.ok ⟨0, 0⟩, s) := by
  rw [go_reindexAll, reindexPages, go_bind, go_query, pageRecords, pageRows, List.take_zero]
  rfl

/-- Everything is there that computing a match key anew takes. -/
def Computable (access : Access) (handle : Handle) (config : String) (s : World) : Prop :=
  access = .free ∧ 0 < handle.pageSize ∧ (∀ row ∈ s.tables.records, Readable row) ∧
    ∃ k kept, s.tables.matchKey? config = .ok (some k) ∧
      (s.cache.get handle.tenant k).1 = .ok kept

/-- Where it is not possible to write or to read, nothing happens to the tables. -/
theorem rebuild_idles_of_impossible (h : ¬(access = .free ∧ 0 < handle.pageSize)) :
    Idles s ((rebuild access handle config limit now).go s).2 := by
  rcases go_rebuild_cases access handle config limit now s with
    hnone | ⟨f, s₁, hgo, hidles⟩ | ⟨recipe, s₁, hidles, hgo⟩
  · rw [go_rebuild_none hnone]
    exact lasting_idles.refl s
  · rw [hgo]
    exact hidles
  · rw [hgo, go_bind, go_transaction]
    rcases hcheck : access.check with f | ⟨⟩
    · exact hidles
    · have hsize : handle.pageSize = 0 :=
        Nat.eq_zero_of_not_pos fun hsize ↦ h ⟨check_eq_ok_iff.mp hcheck, hsize⟩
      rw [hsize, go_atomically, go_reindexAll_zero]
      exact hidles

/-- Where anything else is missing, nothing happens to the tables either. -/
theorem rebuild_idles (ho : s.Orderly) (h : ¬Computable access handle config s)
    (hids : ((rebuild access handle config limit now).go s).2.ids.next < idLimit) :
    Idles s ((rebuild access handle config limit now).go s).2 := by
  by_cases hpossible : access = .free ∧ 0 < handle.pageSize
  · obtain ⟨rfl, hsize⟩ := hpossible
    rcases hkey : s.tables.matchKey? config with f | - | k
    · have hgo : (rebuild .free handle config limit now).go s = (.error f, s) := by
        rw [rebuild, go_bind, go_query, hkey]
      rw [hgo]
      exact rebuild_error hgo
    · rw [go_rebuild_none hkey]
      exact lasting_idles.refl s
    · rcases hkept : (s.cache.get handle.tenant k).1 with f | kept
      · have hgo : (rebuild .free handle config limit now).go s
            = (.error f, { s with cache := (s.cache.get handle.tenant k).2 }) := by
          rw [rebuild, go_bind, go_query, hkey]
          dsimp only
          rw [go_bind, go_method, hkept]
        rw [hgo]
        exact rebuild_error hgo
      · have hreadable : ¬∀ row ∈ s.tables.records, Readable row :=
          fun hall ↦ h ⟨rfl, hsize, hall, k, kept, hkey, hkept⟩
        obtain ⟨s', hgo, -⟩ := go_rebuild_unreadable ho hkey hsize hids hkept hreadable
        rw [hgo]
        exact rebuild_error hgo
  · exact rebuild_idles_of_impossible hpossible

theorem reassigned_eq_nil (ho : s.Orderly) (h : ¬Computable access handle config s) :
    reassigned access handle config limit now s = [] := by
  obtain ⟨read, hread⟩ := ho.form.exists_reading
  rw [reassigned]
  split
  · next k records hkey hrecords =>
    split
    · next kept hkept =>
      refine if_neg fun hpossible ↦ h ⟨hpossible.1, hpossible.2, ?_, k, kept, hkey, hkept⟩
      by_contra hreadable
      have hread' : ∀ row ∈ ascending s.tables.records, Tells row (read row) :=
        fun row hrow ↦ hread row (mem_ascending.mp hrow)
      rw [mapM_read_eq_error hread' fun hall ↦ hreadable fun row hrow ↦
        hall row (mem_ascending.mpr hrow)] at hrecords
      cases hrecords
    · rfl
  · rfl

/-- **Computing a match key anew carries out the assignments that the journal has of it.** -/
theorem course_rebuild (ho : s.Orderly)
    (hids : ((rebuild access handle config limit now).go s).2.ids.next < idLimit) :
    Course config s (reassigned access handle config limit now s)
      ((rebuild access handle config limit now).go s).2 := by
  by_cases h : Computable access handle config s
  · obtain ⟨rfl, hsize, hreadable, k, kept, hkey, hkept⟩ := h
    obtain ⟨read, hread⟩ := ho.form.exists_reading
    have hrecords : (ascending s.tables.records).mapM RecordRow.read
        = .ok ((ascending s.tables.records).map read) :=
      mapM_read_eq_map (fun row hrow ↦ hread row (mem_ascending.mp hrow))
        fun row hrow ↦ hreadable row (mem_ascending.mp hrow)
    obtain ⟨-, s', -, hgo, -, hwalked⟩ :=
      go_rebuild_readable ho hkey hsize hids hkept hread hreadable
    rw [hgo, reassigned, hkey, hrecords]
    simp only [hkept, hsize, and_self, if_true]
    exact hwalked.course
  · rw [reassigned_eq_nil ho h]
    exact course_of_idles ho (rebuild_idles ho h hids) hids.le

/-! ## Submissions -/

/-- **A submission carries out the assignments that the journal has of it.** -/
theorem Ingester.course_ingest (i : Ingester) {submission : Submission} (ho : s.Orderly)
    (hids : ((i.ingest now submission).go s).2.ids.next < idLimit) :
    Course config s (i.assigned config now submission s)
      ((i.ingest now submission).go s).2 := by
  rw [assigned]
  rcases hdeed : i.deed? s.tables submission with - | ⟨key, payload⟩ | key
  · obtain ⟨f, s', hgo, hidles⟩ := ingest_of_deed?_none ho.form hdeed
    rw [hgo] at hids ⊢
    exact course_of_idles ho hidles hids.le
  · obtain ⟨localId, outcome, s', rfl, hgo, hstore⟩ := ingest_of_deed?_store ho hids hdeed
    rw [hgo] at hids
    obtain ⟨-, -, -, -, r, hrow, -, -, hcourse⟩ := stored_of_store ho hids hstore
    simp only [hgo, hrow]
    exact hcourse config
  · rw [ingest_of_deed?_remove hdeed]
    exact .spare .start (deleteRecords_spares ho _ now)

/-! ## Calls -/

/-- A transaction that is not allowed to write does nothing. -/
theorem snd_go_transaction {α : Type} {w : Work α} (h : access ≠ .free) (s : World) :
    ((transaction access w).go s).2 = s := by
  rw [go_transaction]
  rcases hcheck : access.check with f | ⟨⟩
  · rfl
  · exact absurd (check_eq_ok_iff.mp hcheck) h

/-- **A call carries out the assignments that the journal has of it**, unless it removes what
belongs to the match key. -/
theorem Call.course_perform (hop : c.op.IsEngine) (hwipes : c.wipes config = false)
    (ho : s.Orderly) (hids : (c.perform s).ids.next < idLimit) :
    Course config s (c.assigned config s) (c.perform s) := by
  have happart : c.op.Avoids config → Course config s [] (c.perform s) := fun hc ↦
    .spare .start ((respects_apart hc c.access s).2 hids.le ho).2
  obtain ⟨access, op⟩ := c
  cases op with
  | rebuild handle k limit now =>
    change Course config s
      (if k = config then reassigned access handle config limit now s else []) _
    by_cases hk : k = config
    · subst hk
      have hperform : Call.perform ⟨access, .rebuild handle k limit now⟩ s
          = ((rebuild access handle k limit now).go s).2 := Operation.snd_go_quietly _ s
      rw [hperform] at hids ⊢
      rw [if_pos rfl]
      exact course_rebuild ho hids
    · rw [if_neg hk]
      exact happart hk
  | ingest i now submission =>
    have hperform : Call.perform ⟨access, .ingest i now submission⟩ s
        = (({ i with access }.ingest now submission).go s).2 := Operation.snd_go_quietly _ s
    rw [hperform] at hids ⊢
    exact Ingester.course_ingest _ ho hids
  | assign now r k values =>
    have hconcerns : Call.Concerns config ⟨access, .assign now r k values⟩ := by
      by_cases hk : k = config
      · subst hk
        exact Or.inr ⟨now, r, values, rfl⟩
      · exact Or.inl hk
    exact (follows_perform hconcerns ho hids).course
  | clear k | deleteMatchKey k =>
    by_cases hk : k = config
    · have hlocked : access ≠ .free := by
        rintro rfl
        simp [wipes, hk] at hwipes
      rw [Call.perform, Operation.work, snd_go_transaction hlocked]
      exact .start
    · exact happart hk
  | insertMatchKey | updateMatchKey | storeRecord | deleteRecord | deleteSource =>
    exact happart trivial
  | start | advance | merge | insertValue | setMember => exact hop.elim

/-- A call that removes what belongs to a match key leaves neither owners nor members. -/
theorem Call.perform_of_wipes (hwipes : c.wipes config = true) :
    (∀ x v, ¬(c.perform s).tables.Owns config x v) ∧
      ∀ x q, ¬(c.perform s).tables.Holds config x q := by
  obtain ⟨access, op⟩ := c
  cases op with
  | clear k | deleteMatchKey k =>
    simp only [wipes, Bool.and_eq_true, decide_eq_true_eq] at hwipes
    obtain ⟨rfl, rfl⟩ := hwipes
    exact ⟨not_owns_clear k, not_holds_clear k⟩
  | _ => cases hwipes

/-! ## Runs -/

/-- **A journal is right.** It is the history of the match key since there were neither owners nor
members. -/
structure Recorded (config : String) (H : List (RecordId × List String)) (s : World) : Prop where
  orderly : s.Orderly
  exists_course : ∃ s₀ : World, s₀.Orderly ∧ (∀ x v, ¬s₀.tables.Owns config x v) ∧
    (∀ x q, ¬s₀.tables.Holds config x q) ∧ Course config s₀ H s

namespace Recorded

theorem of_empty (h : s.tables = .empty) : Recorded config [] s where
  orderly := World.orderly_of_empty h
  exists_course := by
    refine ⟨s, World.orderly_of_empty h, fun x v ↦ ?_, fun x q ↦ ?_, .start⟩
    · simp [h, Owns, Tables.empty]
    · simp [h, Holds, Tables.empty]

theorem perform (h : Recorded config H s) (hop : c.op.IsEngine)
    (hnow : ∀ now ∈ c.op.reading?, now < Datestamp.limit)
    (hids : (c.perform s).ids.next < idLimit) :
    Recorded config (c.enter config s H) (c.perform s) := by
  have hkeeps : KeepsSound s (c.perform s) := respects_keepsSound hop hnow c.access s
  have ho := hkeeps.1.2 hids.le h.orderly
  obtain ⟨s₀, ho₀, howners, hmembers, hcourse⟩ := h.exists_course
  refine ⟨ho, ?_⟩
  rw [Call.enter]
  split_ifs with hwipes
  · obtain ⟨hno, hnone⟩ := c.perform_of_wipes hwipes
    exact ⟨c.perform s, ho, hno, hnone, .start⟩
  · have hnext := c.course_perform hop (by simpa using hwipes) h.orderly hids
    exact ⟨s₀, ho₀, howners, hmembers, hcourse.trans hnext⟩

theorem run (h : Recorded config H s) {calls : List Call} (hcalls : ∀ c ∈ calls, c.op.IsEngine ∧
    ∀ now ∈ c.op.reading?, now < Datestamp.limit) (hids : (run s calls).ids.next < idLimit) :
    Recorded config (journalFrom config s H calls) (RecordLinkage.run s calls) := by
  induction calls generalizing s H with
  | nil => exact h
  | cons c rest ih =>
    obtain ⟨⟨hop, hnow⟩, hrest⟩ := List.forall_mem_cons.mp hcalls
    have hgrows : Grows (c.perform s) (RecordLinkage.run (c.perform s) rest) :=
      (run_keepsSound hrest _).1.1
    exact ih (h.perform hop hnow (hgrows.trans_lt hids)) hrest hids

/-! ## What the journal says -/

variable (h : Recorded config H s)

include h

theorem exists_tracks : ∃ s₀ : World, (∀ x v, ¬s₀.tables.Owns config x v) ∧
    (∀ x q, ¬s₀.tables.Holds config x q) ∧ Tracks config s₀ H s := by
  obtain ⟨s₀, ho₀, howners, hmembers, hcourse⟩ := h.exists_course
  refine ⟨s₀, howners, hmembers, hcourse.tracks ho₀.form ?_⟩
  exact ⟨fun x v hx ↦ absurd hx (howners x v), fun x q hx ↦ absurd hx (hmembers x q),
    fun x q hx ↦ absurd hx (hmembers x q)⟩

/-- A record that was assigned is a member of the cluster that owns the latest of its sets. -/
theorem exists_home (hr : s.tables.Stores r) (hlast : H.lookup r = some V) :
    ∃ x, s.tables.Holds config x r ∧ ∀ v ∈ V, s.tables.Owns config x v := by
  obtain ⟨s₀, -, -, htracks⟩ := h.exists_tracks
  obtain ⟨x, hx⟩ := htracks.present hr (Or.inl (by rw [hlast]; rfl))
  exact ⟨x, hx, htracks.latest hx hlast⟩

end Recorded

/-- **The journal of a run is right.** -/
theorem recorded_journal {calls : List Call} (hempty : s.tables = .empty)
    (hcalls : ∀ c ∈ calls, c.op.IsEngine ∧ ∀ now ∈ c.op.reading?, now < Datestamp.limit)
    (hids : (run s calls).ids.next < idLimit) :
    Recorded config (journal config s calls) (run s calls) :=
  (Recorded.of_empty hempty).run hcalls hids

end RecordLinkage
