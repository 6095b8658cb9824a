import RecordLinkage.Clustering.Reindex
import RecordLinkage.CommandLine.Command
import RecordLinkage.Ingest.Batch
import RecordLinkage.Json.Printer
import RecordLinkage.Settings.Location

/-!
# Carrying out commands

A command reads the settings, finds the database of the tenant, does its work and has an answer,
which is a text. Commands that only read refuse a database that is not there; the others make one.

Each command is judged as far as possible before the database is touched. What has been written
stays written, also when a later step of the same command fails.
-/

namespace RecordLinkage.CommandLine

/-- Why a command failed. -/
inductive Failure where
  /-- Something in the library refused. -/
  | fault (f : Fault)
  /-- The command itself cannot be carried out as it was given. -/
  | refused (reason : String)
  deriving DecidableEq, Repr

/-- The world outside of a command. -/
structure Surroundings where
  files : FileTree
  home : String
  now : Datestamp
  /-- In which order the submissions of a batch are carried out. -/
  schedule : Schedule
  ids : IdSupply

/-- A step of a command: it has an answer or fails, and what it changed stays changed. -/
abbrev Step := ExceptT Failure (StateM Surroundings)

namespace Step

variable {α : Type}

/-- A step of the library. -/
def ofExcept : Except Fault α → Step α
  | .ok a => pure a
  | .error f => throw (.fault f)

def refuse (reason : String) : Step α := throw (.refused reason)

/-- A part of the command line that has to be understood. -/
def require (value : Option α) (reason : String) : Step α :=
  match value with
  | some a => pure a
  | none => refuse reason

/-- A part of the command line that may be left out. -/
def optional {β : Type} (value : Option α) (f : α → Step β) : Step (Option β) :=
  match value with
  | some a => do
    let b ← f a
    return some b
  | none => pure none

end Step

/-- What all commands start from. -/
structure Context where
  settings : Settings
  tenant : TenantId
  database : String

namespace Context

/-- Reads the settings and finds the database. -/
def create (i : Invocation) : Step Context := do
  let s ← get
  let settings ← Step.ofExcept (match i.settings with
    | some path => Settings.loadFrom s.files path
    | none => Settings.load s.files s.home)
  let tenant ← Step.ofExcept (TenantId.parse i.tenant)
  return ⟨settings, tenant, i.database.getD (settings.databasePath s.home tenant)⟩

/-- How the database is used for writing. -/
def handle (c : Context) : Handle := .writing c.tenant c.settings.storage.fetchSize

/-- Writes the tables into the database. -/
def save (c : Context) (tables : Tables) : Step Unit := do
  match (← get).files.write c.database (.database tables) with
  | some files => modify fun s ↦ { s with files }
  | none => throw (.fault .cannotConnect)

/-- Opens the database for writing, and makes it if it is missing. -/
def openForWriting (c : Context) : Step Tables := do
  match Files.parent? c.database with
  | some parent =>
    match (← get).files.makeDirectories parent with
    | some files => modify fun s ↦ { s with files }
    | none => throw (.fault (.file parent none))
  | none => pure ()
  match (← get).files.node? c.database with
  | none | some (.text "") =>
    c.save .empty
    return .empty
  | some .directory => throw (.fault .cannotConnect)
  | some (.text _) => throw (.fault .notADatabase)
  | some (.database tables) => return tables

/-- Opens the database for reading. An empty file lacks the table that is looked at first. -/
def openForReading (c : Context) (table : String) : Step Tables := do
  match (← get).files.node? c.database with
  | none =>
    Step.refuse ("no database for tenant '" ++ c.tenant.text ++ "' at " ++ c.database)
  | some .directory => throw (.fault .cannotConnect)
  | some (.text "") => throw (.fault (.noTable table))
  | some (.text _) => throw (.fault .notADatabase)
  | some (.database tables) => return tables

variable {α : Type}

/-- Does work on the tables of the database. -/
def work (c : Context) (tables : Tables) (w : Work α) : Step α := do
  let (result, world) := w.go ⟨tables, (← get).ids, .empty⟩
  modify fun s ↦ { s with ids := world.ids }
  c.save world.tables
  Step.ofExcept result

/-- Makes a change to the database. -/
def write (c : Context) (w : Work α) : Step α := do c.work (← c.openForWriting) w

/-- Looks something up in the database, in the given table first. -/
def read (c : Context) (table : String) (q : Tables → Except Fault α) : Step α := do
  Step.ofExcept (q (← c.openForReading table))

end Context

def keyTable : String := "match_key_config"

def markTable : String := "cluster_meta"

def recordTable : String := "global_records"

/-! ## Answers -/

/-- A value as an answer. -/
def shown (v : Json) : String := v.indentedText ++ "\n"

/-- What is said of a match key that is not there. -/
def missingKey (id : String) : Fault := .notFound ("match key '" ++ id ++ "'")

/-- The match key that was given. -/
def KeyForm.toMatchKey (f : KeyForm) : Step MatchKey := do
  let params ←
    match f.params, f.expr with
    | some text, _ => Step.require (Json.parse? text) "--params is not valid JSON"
    | none, some expr => pure (Json.object [("expr", .string expr)])
    | none, none => pure (Json.object [])
  let key : MatchKey := ⟨f.id, f.method, params, f.update⟩
  Step.ofExcept key.validate
  return key

/-! ## Commands -/

def ingest (c : Context) (source : String) (version : Int) (localIdPath : Option String)
    (window : Option Nat) (file : String) : Step String := do
  let source ← Step.ofExcept (SourceId.parse source)
  if window = some 0 then Step.refuse "--window must be at least 1"
  let s ← get
  let input ← Step.require (s.files.read? file) ("cannot read " ++ file)
  let tables ← c.openForWriting
  let request : IngestRequest := ⟨source, version, localIdPath⟩
  let settings := { c.settings.ingest with window := window.getD c.settings.ingest.window }
  let report ← c.work tables
    (ingestBatch .free c.tenant request settings s.schedule s.now input.toList)
  let summary ← Step.ofExcept report.result
  return shown summary.toJson

def addKey (c : Context) (form : KeyForm) : Step String := do
  let key ← form.toMatchKey
  c.write (Work.statement (Tables.insertMatchKey key))
  return shown key.toJson

def updateKey (c : Context) (form : KeyForm) : Step String := do
  let key ← form.toMatchKey
  let found ← c.write (Work.update fun t ↦ t.updateMatchKey key)
  if found then return shown key.toJson else throw (.fault (missingKey key.id))

def showKey (c : Context) (id : String) : Step String := do
  match ← c.read keyTable fun t ↦ t.matchKey? id with
  | some key => return shown key.toJson
  | none => throw (.fault (missingKey id))

def deleteKey (c : Context) (id : String) : Step String := do
  let found ← c.write (Work.update fun t ↦ t.deleteMatchKey id)
  if found then return "Deleted match key '" ++ id ++ "'\n" else throw (.fault (missingKey id))

/-- Computes a match key anew, after clearing it if that is asked for. -/
def initKey (c : Context) (id : String) (clean : Bool) : Step String := do
  let now := (← get).now
  if clean then c.write (Work.change fun t ↦ t.clear id)
  let limit := c.settings.ingest.matchValueMaxLength
  match ← c.write (Clustering.rebuild .free c.handle id limit now) with
  | some stats => return shown stats.toJson
  | none => throw (.fault (missingKey id))

def showStats (c : Context) (id : String) : Step String := do
  match ← c.read keyTable fun t ↦ t.matchKey? id with
  | some _ => return shown (← c.read keyTable fun t ↦ t.stats id).toJson
  | none => throw (.fault (missingKey id))

def getCluster (c : Context) (id : String) : Step String := do
  let cluster ← Step.require (ClusterId.ofText? id) ("invalid cluster id '" ++ id ++ "'")
  match ← c.read markTable fun t ↦ t.cluster? cluster with
  | some view => return shown view.toJson
  | none => throw (.fault (.notFound ("cluster '" ++ id ++ "'")))

def listChanged (c : Context) (key : String) (since place : Option String) (limit : Nat) :
    Step String := do
  let since ←
    match since with
    | some text => Step.require (Datestamp.parse? text) ("invalid --since '" ++ text ++ "'")
    | none => pure 0
  let place ← Step.optional place fun text ↦
    Step.require (ClusterId.ofText? text) ("invalid --after '" ++ text ++ "'")
  let marks ← c.read markTable fun t ↦ t.changedSince key since place limit
  return shown (.array (marks.map ClusterMark.toJson))

def listRecords (c : Context) (source : Option String) : Step String := do
  let source ← Step.optional source fun text ↦ Step.ofExcept (SourceId.parse text)
  let records ← c.read recordTable fun t ↦ t.listRecords source
  return shown (.array (records.map Record.toJson))

def deleteSource (c : Context) (source : String) : Step String := do
  let source ← Step.ofExcept (SourceId.parse source)
  let now := (← get).now
  let count ← c.write (Work.update fun t ↦ t.deleteSource source now)
  return "Deleted " ++ Number.natText count ++ " records of source " ++ source.text ++ "\n"

def initSettings : Step String := do
  let s ← get
  let (path, files) ← Step.ofExcept (Settings.init s.files s.home)
  modify fun s ↦ { s with files }
  return "Config initialized at: " ++ path ++ "\n"

def Command.run (c : Context) : Command → Step String
  | .ingest source version localIdPath window file =>
    CommandLine.ingest c source version localIdPath window file
  | .addKey form => CommandLine.addKey c form
  | .updateKey form => CommandLine.updateKey c form
  | .listKeys => do
    let keys ← c.read keyTable Tables.listMatchKeys
    return shown (.array (keys.map MatchKey.toJson))
  | .showKey id => CommandLine.showKey c id
  | .deleteKey id => CommandLine.deleteKey c id
  | .initKey id clean => CommandLine.initKey c id clean
  | .showStats id => CommandLine.showStats c id
  | .getCluster id => CommandLine.getCluster c id
  | .listChanged key since place limit => CommandLine.listChanged c key since place limit
  | .listRecords source => CommandLine.listRecords c source
  | .deleteSource source => CommandLine.deleteSource c source
  | .initSettings => CommandLine.initSettings
  | .showSettings => return c.settings.toText ++ "\n# tenant database: " ++ c.database ++ "\n"

def Invocation.run (i : Invocation) : Step String := do
  let c ← Context.create i
  i.command.run c

end RecordLinkage.CommandLine
