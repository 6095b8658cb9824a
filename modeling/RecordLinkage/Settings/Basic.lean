import RecordLinkage.Fault

/-!
# Settings

Where the databases of the tenants are, how they are opened, and what limits hold for batches. All
of it has defaults.
-/

namespace RecordLinkage

/-- Where and how databases are opened. -/
structure StorageSettings where
  /-- The directory that holds one file for each tenant. -/
  dataDir : String
  /-- How long a writer waits for another one, in milliseconds. -/
  busyTimeoutMs : Nat
  /-- How many records are read at a time when all are read. -/
  fetchSize : Nat
  deriving DecidableEq, Repr

/-- The limits of batches. -/
structure IngestSettings where
  /-- How many submissions may be in flight. -/
  window : Nat
  /-- How many characters of a match value count. -/
  matchValueMaxLength : Nat
  /-- How many times a submission is tried again. -/
  retries : Nat
  deriving DecidableEq, Repr

structure Settings where
  /-- Where and how databases are opened. -/
  storage : StorageSettings
  /-- The limits of batches. -/
  ingest : IngestSettings
  deriving DecidableEq, Repr

namespace StorageSettings

/-- What holds for databases if nothing is said. -/
def standard : StorageSettings := ⟨"~/.reservoir/data", 5000, 50⟩

end StorageSettings

namespace IngestSettings

/-- What holds for batches if nothing is said. -/
def standard : IngestSettings := ⟨5, 600, 1⟩

end IngestSettings

namespace Settings

/-- What holds if nothing is said. -/
def standard : Settings := ⟨.standard, .standard⟩

/-- Refuses settings with which nothing would ever happen. -/
def validate (s : Settings) : Except Fault Settings :=
  if s.ingest.window = 0 then .error (.config "ingest.window must be at least 1")
  else if s.ingest.matchValueMaxLength = 0 then
    .error (.config "ingest.match_value_max_length must be at least 1")
  else if s.storage.fetchSize = 0 then .error (.config "storage.fetch_size must be at least 1")
  else .ok s

end Settings

end RecordLinkage
