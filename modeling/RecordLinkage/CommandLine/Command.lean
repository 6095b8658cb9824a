import RecordLinkage.CommandLine.Grammar
import RecordLinkage.MatchKey.Config

/-!
# Commands

What can be asked for on the command line, and how it is written there.
-/

namespace RecordLinkage.CommandLine

/-- A match key as it is written on a command line. -/
structure KeyForm where
  id : String
  method : String
  /-- A query, which is one way to give parameters. -/
  expr : Option String
  params : Option String
  /-- When match values are computed. -/
  update : String
  deriving DecidableEq, Repr

/-- What is asked for. -/
inductive Command where
  | ingest (source : String) (version : Int) (localIdPath : Option String) (window : Option Nat)
      (file : String)
  | addKey (form : KeyForm)
  | updateKey (form : KeyForm)
  | listKeys
  | showKey (id : String)
  | deleteKey (id : String)
  /-- Compute a match key anew, from nothing or from what there is. -/
  | initKey (id : String) (clean : Bool)
  | showStats (id : String)
  | getCluster (id : String)
  | listChanged (key : String) (since place : Option String) (limit : Nat)
  | listRecords (source : Option String)
  | deleteSource (source : String)
  | initSettings
  | showSettings
  deriving DecidableEq, Repr

/-- What is asked for, and what holds for every command. -/
structure Invocation where
  tenant : String
  /-- The database file, if it is not the one of the settings. -/
  database : Option String
  /-- The file of the settings, if it is not the usual one. -/
  settings : Option String
  command : Command
  deriving DecidableEq, Repr

/-! ## Notation -/

private def needed (name : String) (kind : ValueKind) : Parameter := ⟨name, kind, true⟩

private def possible (name : String) (kind : ValueKind) : Parameter := ⟨name, kind, false⟩

private def bare : Grammar := .command [] [] [] []

private def onId : Grammar := .command [] [] [] [needed "ID" .text]

private def keyForm : Grammar :=
  .command [needed "id" .text, possible "method" .text, possible "expr" .text,
    possible "params" .text, possible "update" .text] [] [("params", "expr")] []

def grammar : Grammar := .group [
  ("ingest", .command [needed "source-id" .text, possible "source-version" .signed64,
    possible "local-id-path" .text, possible "window" .unsigned64] [] [] [needed "FILE" .path]),
  ("matchkey", .group [("add", keyForm), ("update", keyForm), ("list", bare), ("show", onId),
    ("delete", onId), ("init", .command [] ["clean"] [] [needed "ID" .text]), ("stats", onId)]),
  ("cluster", .group [("get", onId),
    ("changed", .command [needed "match-key" .text, possible "since" .text, possible "after" .text,
      possible "limit" .unsigned32] [] [] [])]),
  ("record", .group [("list", .command [possible "source-id" .text] [] [] []),
    ("delete-source", .command [] [] [] [needed "SOURCE" .text])]),
  ("config", .group [("init", bare), ("show", bare)])]

/-- The options that are understood everywhere. -/
def globals (environmentTenant : Option String) : Globals where
  options := [possible "tenant" .text, possible "db" .path, possible "config" .path,
    possible "log-format" (.word ["text", "json"])]
  environment := (environmentTenant.map fun _ ↦ "tenant").toList

def standardTenant : String := "default"

def standardLimit : Nat := 100

/-! ## Meaning -/

private def formOf (g : Given) : KeyForm where
  id := (g.value? "id").getD ""
  method := (g.value? "method").getD "jsonpath"
  expr := g.value? "expr"
  params := g.value? "params"
  update := (g.value? "update").getD MatchKey.onIngest

/-- The command that was given. -/
def commandOf? (g : Given) : Option Command :=
  let operand (name : String) : String := (g.value? name).getD ""
  match g.commands with
  | ["ingest"] =>
    some (.ingest (operand "source-id") (((g.value? "source-version").bind Number.signed64?).getD 1)
      (g.value? "local-id-path") ((g.value? "window").bind Number.unsigned64?) (operand "FILE"))
  | ["matchkey", "add"] => some (.addKey (formOf g))
  | ["matchkey", "update"] => some (.updateKey (formOf g))
  | ["matchkey", "list"] => some .listKeys
  | ["matchkey", "show"] => some (.showKey (operand "ID"))
  | ["matchkey", "delete"] => some (.deleteKey (operand "ID"))
  | ["matchkey", "init"] => some (.initKey (operand "ID") (g.switches.contains "clean"))
  | ["matchkey", "stats"] => some (.showStats (operand "ID"))
  | ["cluster", "get"] => some (.getCluster (operand "ID"))
  | ["cluster", "changed"] =>
    some (.listChanged (operand "match-key") (g.value? "since") (g.value? "after")
      (((g.value? "limit").bind Number.unsigned32?).getD standardLimit))
  | ["record", "list"] => some (.listRecords (g.value? "source-id"))
  | ["record", "delete-source"] => some (.deleteSource (operand "SOURCE"))
  | ["config", "init"] => some .initSettings
  | ["config", "show"] => some .showSettings
  | _ => none

/-- Reads a command line. The tenant may be given by the environment. -/
def Invocation.parse (environmentTenant : Option String) (args : List String) :
    Except UsageFault Invocation := do
  let given ← read (globals environmentTenant) grammar args
  match commandOf? given with
  | some command =>
    .ok ⟨(given.value? "tenant").getD (environmentTenant.getD standardTenant), given.value? "db",
      given.value? "config", command⟩
  | none => .error .noCommand

end RecordLinkage.CommandLine
