import RecordLinkage.Text.Quoted

/-!
# Faults

What can go wrong, by the part that it concerns. A fault carries the words for its cause, and is
shown with the words for its kind in front of them.

Only two kinds are worth another attempt: a fault of the storage, which may be busy, and a conflict
with another writer. All others would come back unchanged.
-/

namespace RecordLinkage

/-- Why an operation did not succeed. -/
inductive Fault where
  /-- The settings are unusable. -/
  | config (cause : String)
  /-- The database refused. -/
  | storage (cause : String)
  /-- Something that has to be unique is there already. -/
  | conflict (cause : String)
  /-- An argument or a record is not acceptable. -/
  | validation (cause : String)
  /-- A match key method cannot be set up or applied. -/
  | matchKey (cause : String)
  /-- A batch is not a stream of values. -/
  | parse (cause : String)
  /-- A file or directory cannot be used, with what the system has to say about it, if anything. -/
  | file (path : String) (cause : Option String)
  /-- There is nothing of that name. -/
  | notFound (what : String)
  deriving DecidableEq, Repr, Inhabited

namespace Fault

/-- The words of a fault. -/
def message : Fault → String
  | config cause => "config error: " ++ cause
  | storage cause => "storage error: " ++ cause
  | conflict cause => "conflict: " ++ cause
  | validation cause => "validation error: " ++ cause
  | matchKey cause => "match key error: " ++ cause
  | parse cause => "parse error: " ++ cause
  | file path none => "I/O error at " ++ Text.quoted path
  | file path (some cause) => "I/O error at " ++ Text.quoted path ++ ": " ++ cause
  | notFound what => "not found: " ++ what

/-- Whether another attempt may succeed. -/
def isRetryable : Fault → Bool
  | storage _ | conflict _ => true
  | _ => false

/-! ## Causes within the storage -/

private def engineFailure (cause : String) : String := "SQLite failure: `" ++ cause ++ "`"

/-- A row refers to one that is not there. -/
def foreignKey : Fault := storage (engineFailure "FOREIGN KEY constraint failed")

def locked : Fault := storage (engineFailure "database is locked")

def notADatabase : Fault := storage (engineFailure "file is not a database")

def noSavepoint (name : String) : Fault := storage (engineFailure ("no such savepoint: " ++ name))

/-- A table is missing, as in a file that no schema was set up in. -/
def noTable (name : String) : Fault := storage (engineFailure ("no such table: " ++ name))

/-- A row would repeat what has to be unique in the given columns. -/
def duplicate (columns : String) : Fault :=
  conflict (engineFailure ("UNIQUE constraint failed: " ++ columns))

def readOnly : Fault := storage "database is opened in read-only mode"

def cannotConnect : Fault := storage "Failed to connect to database"

def migrationFailed : Fault := storage "migration v1 failed"

/-- A stored identifier is none. -/
def invalidId (text : String) : Fault := storage ("invalid id '" ++ text ++ "'")

def invalidPayload : Fault := storage "invalid payload JSON"

def invalidParams : Fault := storage "invalid params JSON"

/-- A stored number left the range of its column. -/
def invalidColumn : Fault := storage "invalid column type"

/-- A task died before it reported its record. -/
def taskAborted : Fault := storage "ingest task aborted"

/-- Conflicts and faults of the storage are the retryable ones. -/
theorem isRetryable_iff (f : Fault) :
    f.isRetryable = true ↔ (∃ cause, f = storage cause) ∨ ∃ cause, f = conflict cause := by
  cases f <;> simp [isRetryable]

end Fault

end RecordLinkage
