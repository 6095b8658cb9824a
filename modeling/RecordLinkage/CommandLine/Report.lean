import RecordLinkage.CommandLine.Run

/-!
# Reports to the user

What is shown when a command line is not understood or a command fails, and how the program ends.
-/

namespace RecordLinkage.CommandLine

namespace UsageFault

/-- What is shown instead of an answer. -/
def message : UsageFault → String
  | help | helpForNothing =>
    "commands: ingest, matchkey add|update|list|show|delete|init|stats, cluster get|changed, " ++
      "record list|delete-source, config init|show"
  | version => "reservoir"
  | noCommand => "a command is missing"
  | unknownCommand => "there is no such command"
  | unknownArgument => "there is no such argument"
  | invalidValue => "a value is missing or not possible"
  | invalidNumber => "a number is not possible"
  | needlessValue => "a switch has no value"
  | missing => "an argument is missing"
  | conflict => "an argument is given twice, or together with one that excludes it"

/-- Whether the answer was asked for. -/
def isAnswer : UsageFault → Bool
  | help | version => true
  | _ => false

end UsageFault

/-- What is shown when a command fails. -/
def Failure.message : Failure → String
  | .fault f => f.message
  | .refused reason => reason

/-- The file of the settings that are read. -/
def Invocation.settingsFile (i : Invocation) (home : String) : String :=
  i.settings.getD (Settings.file home)

/-- The files that a command reads besides the settings, as far as they can be known. -/
def Invocation.inputs (i : Invocation) (s : Surroundings) : List String :=
  let database := match ((Context.create i).run s).1 with
    | .ok c => [c.database]
    | .error _ => []
  match i.command with
  | .ingest _ _ _ _ file => file :: database
  | _ => database

end RecordLinkage.CommandLine
