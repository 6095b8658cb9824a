import RecordLinkage.Store.Overwrite
import RecordLinkage.Settings.Basic
import RecordLinkage.Store.Work

/-!
# A database in use

A database is used in two ways at once. The handle serves whoever wants one thing done: what it
reads is committed, and each of its changes is committed as it happens. Besides there is one
connection that statements are given to one by one, inside a transaction or outside of one.

## Transactions

A transaction that is begun takes the write lock at once and sees the tables as they were then, with
its own changes. A savepoint outside of a transaction opens one of another kind: it sees the tables
as they were when it first looked, and takes the write lock only when it first changes something. If
somebody else has committed a change in between, it cannot have the lock.

While a transaction holds the write lock, nobody else can change anything.

## Savepoints

Savepoints nest, and names may repeat; a name means the innermost savepoint that has it, whatever
the case of its letters. To release a savepoint is to forget it and those inside it. When the
savepoint that opened a transaction is released, the transaction is committed.
-/

namespace RecordLinkage

/-- The state of the schema, as far as opening a database goes. -/
inductive Schema where
  /-- It was set up. -/
  | ready
  /-- It was set up, but that is not on record any more. -/
  | forgotten
  /-- It cannot be set up. -/
  | broken
  deriving DecidableEq, Repr

/-- How a database was opened. -/
structure Handle where
  tenant : TenantId
  /-- How many records are read at a time when all are read. -/
  pageSize : Nat
  readOnly : Bool
  deriving DecidableEq, Repr

namespace Handle

/-- A handle for reading and writing. -/
def writing (tenant : TenantId) (fetchSize : Nat) : Handle := ⟨tenant, max fetchSize 1, false⟩

/-- A handle for reading only. -/
def reading (tenant : TenantId) : Handle := ⟨tenant, StorageSettings.standard.fetchSize, true⟩

end Handle

/-- What a transaction sees. -/
structure Snapshot where
  /-- The tables when it first looked. -/
  base : Tables
  /-- The tables with its own changes. -/
  current : Tables
  deriving DecidableEq, Repr

/-- A transaction that is open. -/
structure Transaction where
  /-- What it sees, once it has looked. -/
  snapshot : Option Snapshot
  /-- Whether it holds the write lock. -/
  locked : Bool
  /-- Whether somebody else has committed a change since it first looked. -/
  outdated : Bool
  /-- The savepoints, the innermost first, with the tables to return to. Where a savepoint is older
  than the snapshot there are none yet. -/
  savepoints : List (String × Option Tables)
  deriving DecidableEq, Repr

/-- A database in use. -/
structure Database where
  /-- What is committed, and what changes along with it. -/
  world : World
  schema : Schema
  /-- How it was opened. -/
  handle : Handle
  /-- The transaction that a savepoint has opened. -/
  implicit : Option Transaction
  /-- The transaction that was begun. -/
  begun : Option Transaction

namespace Transaction

/-- A transaction that holds the write lock. -/
def begin (committed : Tables) : Transaction := ⟨some ⟨committed, committed⟩, true, false, []⟩

/-- A transaction that is opened by a savepoint. -/
def ofSavepoint (name : String) : Transaction := ⟨none, false, false, [(name, none)]⟩

/-- Looks at the tables, unless that has happened. -/
def look (t : Transaction) (committed : Tables) : Snapshot :=
  t.snapshot.getD ⟨committed, committed⟩

/-- The transaction after somebody else has committed something, be it a change or not. -/
def outdate (t : Transaction) (changed : Bool) : Transaction :=
  { t with outdated := t.outdated || (t.snapshot.isSome && changed) }

/-- Whether the write lock can be had. -/
def mayWrite (t : Transaction) : Bool := t.locked || !t.outdated

/-- What is left in the tables when the transaction ends well. -/
def result (t : Transaction) (committed : Tables) : Tables :=
  match t.locked, t.snapshot with
  | true, some s => s.current
  | _, _ => committed

private def sameName (a b : String) : Bool := a.toLower == b.toLower

/-- The savepoint of a name, and those around it. -/
def savepoint? (t : Transaction) (name : String) :
    Option (Option Tables × List (String × Option Tables)) :=
  match t.savepoints.dropWhile fun s ↦ !sameName s.1 name with
  | [] => none
  | s :: outer => some (s.2, outer)

/-- Returns to the tables of a savepoint. -/
def returnTo (t : Transaction) (saved : Option Tables) : Transaction :=
  { t with snapshot := t.snapshot.map fun s ↦ { s with current := saved.getD s.base } }

end Transaction

namespace Database

/-- A database that was just set up. -/
def new (world : World) (handle : Handle) : Database := ⟨world, .ready, handle, none, none⟩

/-- What stands in the way of changes through the handle. -/
def access (d : Database) : Access where
  readOnly := d.handle.readOnly
  locked := d.implicit.any Transaction.locked || d.begun.any Transaction.locked

/-- What a commit leaves behind. -/
def settle (d : Database) (world : World) : Database :=
  let implicit := d.implicit.map fun t ↦ t.outdate (decide (world.tables ≠ d.world.tables))
  { d with world, implicit }

variable {α : Type}

/-- Does work through the handle. -/
def run (d : Database) (w : Work α) : Except Fault α × Database :=
  let (result, world) := w.go d.world
  (result, d.settle world)

/-- Makes a change through the handle, as a transaction. -/
def write (d : Database) (w : Work α) : Except Fault α × Database :=
  d.run (Work.transaction d.access w)

/-- Overwrites a column, as another program does. -/
def overwrite (d : Database) (column : Column) (text : String) : Except Fault Nat × Database :=
  d.run (Work.transaction { d.access with readOnly := false }
    (Work.statement (Tables.overwrite column text)))

/-- Does work with the tables as a transaction sees them. -/
def runIn (d : Database) (t : Transaction) (locks : Bool) (w : Work α) :
    Except Fault α × World × Transaction :=
  let s := t.look d.world.tables
  let (result, world) := w.go { d.world with tables := s.current }
  (result, { world with tables := d.world.tables },
    { t with snapshot := some { s with current := world.tables }, locked := t.locked || locks })

/-- Gives statements to the connection. They are told to be changes or not. -/
def give (d : Database) (changes : Bool) (w : Work α) : Except Fault α × Database :=
  match d.begun with
  | some t =>
    let (result, world, t) := d.runIn t changes w
    (result, { d with world, begun := some t })
  | none =>
    match d.implicit with
    | some t =>
      if changes && !t.mayWrite then (.error .locked, d)
      else
        let (result, world, t) := d.runIn t changes w
        (result, { d with world, implicit := some t })
    | none => d.run w

/-! ## Transactions -/

def commit (d : Database) : Database :=
  match d.begun with
  | some t =>
    { d.settle { d.world with tables := t.result d.world.tables } with begun := none }
  | none => d

/-- Drops the transaction that was begun, if there is one. -/
def rollback (d : Database) : Database := { d with begun := none }

/-- Begins a transaction. One that is open is dropped first. -/
def begin (d : Database) : Except Fault Unit × Database :=
  let d := d.rollback
  match d.access.check with
  | .ok () => (.ok (), { d with begun := some (.begin d.world.tables) })
  | .error f => (.error f, d)

/-! ## Savepoints -/

/-- Opens a savepoint inside a transaction. -/
def addSavepoint (t : Transaction) (name : String) : Transaction :=
  { t with savepoints := (name, t.snapshot.map Snapshot.current) :: t.savepoints }

def savepoint (d : Database) (name : String) : Database :=
  match d.begun, d.implicit with
  | some t, _ => { d with begun := some (addSavepoint t name) }
  | none, some t => { d with implicit := some (addSavepoint t name) }
  | none, none => { d with implicit := some (.ofSavepoint name) }

/-- Leaves a savepoint for those around it, and the transaction with the outermost one. -/
def leaveImplicit (d : Database) (t : Transaction) (outer : List (String × Option Tables)) :
    Database :=
  match outer with
  | [] => { d with world := { d.world with tables := t.result d.world.tables }, implicit := none }
  | _ => { d with implicit := some { t with savepoints := outer } }

/-- Leaves a savepoint, keeping what has happened since or not. -/
def leave (d : Database) (name : String) (keep : Bool) : Except Fault Unit × Database :=
  let kept (t : Transaction) (saved : Option Tables) : Transaction :=
    if keep then t else t.returnTo saved
  match d.begun, d.implicit with
  | some t, _ =>
    match t.savepoint? name with
    | some (saved, outer) =>
      (.ok (), { d with begun := some { kept t saved with savepoints := outer } })
    | none => (.error (.noSavepoint name), d)
  | none, some t =>
    match t.savepoint? name with
    | some (saved, outer) => (.ok (), d.leaveImplicit (kept t saved) outer)
    | none => (.error (.noSavepoint name), d)
  | none, none => (.error (.noSavepoint name), d)

/-- Keeps what has happened since a savepoint, and forgets it. -/
def release (d : Database) (name : String) : Except Fault Unit × Database := d.leave name true

/-- Undoes what has happened since a savepoint, and forgets it. -/
def rollbackTo (d : Database) (name : String) : Except Fault Unit × Database := d.leave name false

/-! ## Opening and closing -/

/-- Closes the database and opens it again. Open transactions are lost. For writing, the schema is
set up if that is not on record; where it cannot be, the old handle stays. -/
def reopen (d : Database) (handle : Handle) : Except Fault Unit × Database :=
  let d := { d with implicit := none, begun := none }
  if handle.readOnly then (.ok (), { d with handle })
  else
    match d.schema with
    | .broken => (.error .migrationFailed, d)
    | _ => (.ok (), { d with handle, schema := .ready })

end Database

end RecordLinkage
