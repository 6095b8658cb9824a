import RecordLinkage.Proofs.History.Operation
import RecordLinkage.Proofs.Ingest.SetupAgain

/-!
# What calls do to the cache

Of all operations only computing a match key anew asks for a method. An ingester has its methods
already when it carries out submissions, and the other operations have no use for any. So whatever
is called, the cache keeps methods that would be set up, and answers with such methods.
-/

namespace RecordLinkage

open Clustering Work

variable {s : World}

/-! ## Computing a match key anew -/

theorem uncached_reindexRecords (recipe : Recipe) (stats : ReindexStats) (records : List Record) :
    Uncached (reindexRecords recipe stats records) := by
  induction records generalizing stats with
  | nil => exact .pure stats
  | cons record rest ih =>
    refine .bind (.outcome (.atomically ?_)) fun result ↦ ih _
    exact .bind (.ofExcept _) fun values ↦ .bind (uncached_assign _ _ _ _) fun _ ↦ .pure _

theorem uncached_reindexPages (recipe : Recipe) (pageSize pages : ℕ) (place : Option RecordId)
    (stats : ReindexStats) : Uncached (reindexPages recipe pageSize place stats pages) := by
  induction pages generalizing place stats with
  | zero => exact .pure stats
  | succ pages ih =>
    rw [reindexPages]
    refine .bind (.query _) fun page ↦ ?_
    split
    · exact .pure stats
    · exact .bind (uncached_reindexRecords _ _ _) fun stats ↦ ih _ stats

/-- Computing a match key anew takes one method, and otherwise leaves the cache alone. -/
theorem made_rebuild (hmade : s.cache.Made) (access : Access) (handle : Handle) (config : String)
    (limit : ℕ) (now : Datestamp) :
    ((rebuild access handle config limit now).go s).2.cache.Made := by
  rw [rebuild, go_bind, go_query]
  rcases s.tables.matchKey? config with f | - | k
  · exact hmade
  · exact hmade
  · dsimp only
    rw [go_bind, go_method]
    have hget := hmade.get handle.tenant k
    generalize s.cache.get handle.tenant k = found at hget ⊢
    obtain ⟨f | kept, cache⟩ := found
    · exact hget
    · have hall : Uncached (reindexAll ⟨now, k.id, kept.method, limit⟩ handle.pageSize) :=
        fun s ↦ uncached_reindexPages _ _ _ _ _ s
      have hrest := (hall.transaction access).bind fun stats ↦ .pure (some stats)
      have hcache := hrest { s with cache }
      dsimp only at hcache ⊢
      rw [hcache]
      exact hget

/-! ## Calls -/

private theorem uncached_quietly {α : Type} {w : Work α} (hw : Uncached w) :
    Uncached (Operation.quietly w) := hw.bind fun _ ↦ .pure ()

/-- **No call puts into the cache what would not be set up.** -/
theorem made_perform (hmade : s.cache.Made) (c : Call) : (c.perform s).cache.Made := by
  have hkeep : Uncached (c.op.work c.access) → (c.perform s).cache.Made :=
    fun hw ↦ (hw s).symm ▸ hmade
  obtain ⟨access, op⟩ := c
  cases op with
  | rebuild handle config limit now =>
    rw [Call.perform, Operation.work, Operation.snd_go_quietly]
    exact made_rebuild hmade access handle config limit now
  | insertMatchKey | insertValue | setMember => exact hkeep (.transaction (.statement _) access)
  | clear | advance | merge => exact hkeep (.transaction (.change _) access)
  | updateMatchKey | deleteMatchKey | deleteRecord | deleteSource =>
    exact hkeep (.transaction (uncached_quietly (.statement _)) access)
  | storeRecord key payload =>
    have henroll : Uncached (Ingester.enroll key payload) :=
      .bind .mint fun _ ↦ .bind (.statement _) fun _ ↦ .pure _
    exact hkeep (.transaction (uncached_quietly henroll) access)
  | assign => exact hkeep (.transaction (uncached_quietly (uncached_assign _ _ _ _)) access)
  | ingest i now submission => exact hkeep (uncached_quietly (Ingester.uncached_ingest _ now _))
  | start now config =>
    have hstart : Uncached (Clustering.start now config) :=
      .bind .mint fun _ ↦ .bind (.statement _) fun _ ↦ .pure _
    exact hkeep (.transaction (uncached_quietly hstart) access)

theorem made_run (hmade : s.cache.Made) (calls : List Call) : (run s calls).cache.Made := by
  induction calls generalizing s with
  | nil => exact hmade
  | cons c rest ih => exact ih (made_perform hmade c)

end RecordLinkage
