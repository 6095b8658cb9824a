import RecordLinkage.Proofs.Work

/-!
# One savepoint for each record

That a record which fails leaves no trace is what savepoints are for. Inside one transaction each
record gets a savepoint, always of the same name; it is released when the record was assigned, and
returned to when that failed. Here this is written out for a database in use, statement by
statement, and compared with work that is done atomically, record by record and as a transaction.

The comparison rests on one picture. While the transaction lasts, the database is the one that it
was, with a transaction in which the work done so far is visible and in which no savepoint is left.
So a savepoint is always the innermost one of its name when it is left, what it returns to are the
tables at its opening, and nothing that was released before can come undone.
-/

namespace RecordLinkage

open Work Clustering

namespace Database

/-! ## What the connection is told -/

/-- Does work in a savepoint, which is left for good or returned to. The answer is whether the work
failed. -/
def inSavepoint (d : Database) (name : String) (w : Work Unit) : Except Fault Bool × Database :=
  match (d.savepoint name).give true w with
  | (.ok _, d) =>
    let (result, d) := d.release name
    (result.map fun _ ↦ false, d)
  | (.error _, d) =>
    let (result, d) := d.rollbackTo name
    (result.map fun _ ↦ true, d)

/-- Assigns records one after the other, each in a savepoint. -/
def recordByRecord (d : Database) (name : String) (recipe : Recipe) (stats : ReindexStats) :
    List Record → Except Fault ReindexStats × Database
  | [] => (.ok stats, d)
  | record :: rest =>
    match d.inSavepoint name (reindexRecord recipe record) with
    | (.ok hasFailed, d) => d.recordByRecord name recipe (stats.add hasFailed) rest
    | (.error f, d) => (.error f, d)

/-- Looks up page after page and assigns the records of each. -/
def pageByPage (d : Database) (name : String) (recipe : Recipe) (pageSize : ℕ)
    (place : Option RecordId) (stats : ReindexStats) : ℕ → Except Fault ReindexStats × Database
  | 0 => (.ok stats, d)
  | pages + 1 =>
    match d.give false (Work.query (·.pageRecords place pageSize)) with
    | (.ok page, d) =>
      match page.getLast? with
      | none => (.ok stats, d)
      | some last =>
        match d.recordByRecord name recipe stats page with
        | (.ok stats, d) => d.pageByPage name recipe pageSize (some last.id) stats pages
        | (.error f, d) => (.error f, d)
    | (.error f, d) => (.error f, d)

/-- Computes a match key anew in one transaction. -/
def recompute (d : Database) (name : String) (recipe : Recipe) (pageSize : ℕ) :
    Except Fault ReindexStats × Database :=
  match d.begin with
  | (.error f, d) => (.error f, d)
  | (.ok _, d) =>
    match d.pageByPage name recipe pageSize none ⟨0, 0⟩ (d.world.tables.records.length + 1) with
    | (.ok stats, d) => (.ok stats, d.commit)
    | (.error f, d) => (.error f, d.rollback)

/-! ## Inside the transaction -/

/-- The database while a transaction is open that sees a world, and has no savepoint. -/
def within (d : Database) (s : World) : Database :=
  { d with
    world := { s with tables := d.world.tables }
    begun := some ⟨some ⟨d.world.tables, s.tables⟩, true, false, []⟩ }

variable (d : Database) (name : String) (recipe : Recipe) (s : World)

/-- A name means the innermost savepoint that has it. -/
theorem savepoint?_cons {t : Transaction} {saved : Option Tables}
    {outer : List (String × Option Tables)} (h : t.savepoints = (name, saved) :: outer) :
    t.savepoint? name = some (saved, outer) := by
  have hsame : ¬(!(name.toLower == name.toLower)) = true := by
    rw [beq_self_eq_true, Bool.not_true]
    exact Bool.false_ne_true
  rw [Transaction.savepoint?, h, List.dropWhile_cons_of_neg]
  exact hsame

theorem leave_begun {d : Database} {t : Transaction} {saved : Option Tables}
    {outer : List (String × Option Tables)} (h : d.begun = some t)
    (hs : t.savepoints = (name, saved) :: outer) (keep : Bool) :
    d.leave name keep = (.ok (), { d with
      begun := some { (if keep then t else t.returnTo saved) with savepoints := outer } }) := by
  rw [leave, h]
  dsimp only
  rw [savepoint?_cons name hs]

theorem begin_eq (h : d.rollback.access.check = .ok ()) :
    d.begin = (.ok (), d.within d.world) := by
  rw [Database.begin]
  simp only [h]
  rfl

/-- While work is done in a savepoint, the tables at its opening are kept for it. -/
theorem give_savepoint_within (w : Work Unit) :
    ((d.within s).savepoint name).give true w = ((w.go s).1, { d.within (w.go s).2 with
      begun := some ⟨some ⟨d.world.tables, (w.go s).2.tables⟩, true, false,
        [(name, some s.tables)]⟩ }) :=
  rfl

/-- **A savepoint makes work atomic**, and leaves no savepoint behind. -/
theorem inSavepoint_within (w : Work Unit) : (d.within s).inSavepoint name w =
    (.ok (((atomically w).go s).1 matches .error _), d.within ((atomically w).go s).2) := by
  rw [inSavepoint, give_savepoint_within, go_atomically]
  rcases w.go s with ⟨f | ⟨⟩, s'⟩
  · dsimp only
    rw [rollbackTo, leave_begun name rfl rfl]
    rfl
  · dsimp only
    rw [release, leave_begun name rfl rfl]
    rfl

/-- Records one after the other, each in a savepoint, are records one after the other. -/
theorem recordByRecord_within (records : List Record) (stats : ReindexStats) :
    (d.within s).recordByRecord name recipe stats records =
      (((reindexRecords recipe stats records).go s).1,
        d.within ((reindexRecords recipe stats records).go s).2) := by
  induction records generalizing stats s with
  | nil => rfl
  | cons record rest ih =>
    rw [recordByRecord, inSavepoint_within, reindexRecords, go_bind, go_outcome]
    exact ih ..

theorem give_query_within {α : Type} (read : Tables → Except Fault α) :
    (d.within s).give false (Work.query read) = (read s.tables, d.within s) := by
  change (((Work.query read).go s).1, d.within ((Work.query read).go s).2) = _
  rw [go_query]

theorem pageByPage_within (pageSize pages : ℕ) (place : Option RecordId) (stats : ReindexStats) :
    (d.within s).pageByPage name recipe pageSize place stats pages =
      (((reindexPages recipe pageSize place stats pages).go s).1,
        d.within ((reindexPages recipe pageSize place stats pages).go s).2) := by
  induction pages generalizing place stats s with
  | zero => rfl
  | succ pages ih =>
    rw [pageByPage, give_query_within, reindexPages, go_bind, go_query]
    rcases s.tables.pageRecords place pageSize with f | page
    · rfl
    · dsimp only
      rcases page.getLast? with - | last
      · rfl
      · dsimp only
        rw [recordByRecord_within, go_bind]
        rcases (reindexRecords recipe stats page).go s with ⟨f | stats', s'⟩
        · rfl
        · exact ih ..

/-- **A match key is computed anew as a transaction of work that is atomic record by record.** What
is committed is what this work leaves in the world, and when it fails nothing is. -/
theorem recompute_eq (pageSize : ℕ) (h : d.rollback.access.check = .ok ()) :
    (d.recompute name recipe pageSize).1 = ((reindexAll recipe pageSize).go d.world).1 ∧
      (d.recompute name recipe pageSize).2.world
        = ((atomically (reindexAll recipe pageSize)).go d.world).2 ∧
      (d.recompute name recipe pageSize).2.begun = none := by
  have hpages : (d.within d.world).pageByPage name recipe pageSize none ⟨0, 0⟩
      ((d.within d.world).world.tables.records.length + 1)
        = (((reindexAll recipe pageSize).go d.world).1,
            d.within ((reindexAll recipe pageSize).go d.world).2) :=
    pageByPage_within d name recipe d.world pageSize _ none ⟨0, 0⟩
  rw [recompute, begin_eq d h]
  dsimp only
  rw [hpages, go_atomically]
  rcases (reindexAll recipe pageSize).go d.world with ⟨f | stats, s'⟩
  · exact ⟨rfl, rfl, rfl⟩
  · exact ⟨rfl, rfl, rfl⟩

end Database

end RecordLinkage
