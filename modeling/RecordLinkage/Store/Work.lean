import RecordLinkage.MatchKey.Cache
import RecordLinkage.Store.Clusters

/-!
# Work on the store

A statement by itself either happens or fails without a trace. Work is a sequence of statements that
may also take identifiers from the supply and methods from the cache; when one of its statements
fails, those before it have happened. Work that is done atomically leaves no trace in the tables
when it fails. The identifiers that it took are gone all the same, so that none is ever taken twice.

## Who may write

A handle can be for reading only, and while another connection holds the write lock nobody else gets
it. A transaction is atomic work that needs the write lock.
-/

namespace RecordLinkage

/-- What work acts on. -/
structure World where
  tables : Tables
  ids : IdSupply
  /-- The methods that are set up already. -/
  cache : MethodCache

/-- A sequence of statements. -/
abbrev Work := ExceptT Fault (StateM World)

namespace Work

variable {α : Type}

/-- Runs work; the answer comes with what has become of the world. -/
def go (w : Work α) (world : World) : Except Fault α × World := w.run world

def fail (f : Fault) : Work α := throw f

/-- The answer of a computation that may fail. -/
def ofExcept : Except Fault α → Work α
  | .ok a => pure a
  | .error f => fail f

def query (read : Tables → Except Fault α) : Work α := do ofExcept (read (← get).tables)

def statement (s : Statement α) : Work α := do
  match s (← get).tables with
  | .ok (a, tables) =>
    modify fun world ↦ { world with tables }
    return a
  | .error f => fail f

/-- A statement that cannot fail. -/
def change (f : Tables → Tables) : Work Unit :=
  modify fun world ↦ { world with tables := f world.tables }

/-- A statement that cannot fail and has an answer. -/
def update (f : Tables → α × Tables) : Work α := statement fun t ↦ .ok (f t)

/-- Takes an identifier. -/
def mint : Work Uuid := do
  let (id, ids) := (← get).ids.take
  modify fun world ↦ { world with ids }
  return id

/-- Takes the method of a match key out of the cache. -/
def method (tenant : TenantId) (k : MatchKey) : Work MethodInstance := do
  let (result, cache) := (← get).cache.get tenant k
  modify fun world ↦ { world with cache }
  ofExcept result

/-- Work that leaves the tables alone when it fails. -/
def atomically (w : Work α) : Work α := fun world ↦
  match w.go world with
  | (.ok a, world') => (.ok a, world')
  | (.error f, world') => (.error f, { world' with tables := world.tables })

/-- The failure or answer of work, as an answer. -/
def outcome (w : Work α) : Work (Except Fault α) := fun world ↦
  let (result, world') := w.go world
  (.ok result, world')

end Work

/-- What stands in the way of writing. -/
structure Access where
  readOnly : Bool
  /-- Another connection holds the write lock. -/
  locked : Bool
  deriving DecidableEq, Repr

namespace Access

def free : Access := ⟨false, false⟩

/-- Whether writing is possible. -/
def check (a : Access) : Except Fault Unit :=
  if a.readOnly then .error .readOnly
  else if a.locked then .error .locked
  else .ok ()

end Access

namespace Work

variable {α : Type}

/-- Work that needs the write lock, and leaves the tables alone when it fails. -/
def transaction (access : Access) (w : Work α) : Work α := do
  ofExcept access.check
  atomically w

end Work

end RecordLinkage
