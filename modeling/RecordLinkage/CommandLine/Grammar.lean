import RecordLinkage.Number.Integer

/-!
# Reading arguments

A command line names a command, which may be in a group, and gives options and operands. Options
start with two hyphens and have a value, given after an equals sign or as the next argument, or are
switches without one. Some options are understood everywhere.

## Order of failures

Arguments are taken from left to right. The value of an option is judged only when the next option
or operand comes, or at the end, so an unknown option behind it is reported first. What stands
behind the name of a command is read to its end before anything in front of it is judged, and what
is missing is reported last.

An argument that starts with a hyphen is never the value of the option in front of it, except for a
lone hyphen. After two lone hyphens everything is an operand.
-/

namespace RecordLinkage.CommandLine

/-- Why a command line is not carried out. -/
inductive UsageFault where
  | help
  /-- Nothing was said, so help is what there is to answer. -/
  | helpForNothing
  | version
  /-- A group was named, but no command in it. -/
  | noCommand
  | unknownCommand
  /-- There is no such option, or too many operands. -/
  | unknownArgument
  /-- An option has no value, or one that it cannot have. -/
  | invalidValue
  /-- A value is not a number, or not one in range. -/
  | invalidNumber
  /-- A switch has a value. -/
  | needlessValue
  /-- An option or operand is missing. -/
  | missing
  /-- An option was given twice, or two options exclude each other. -/
  | conflict
  deriving DecidableEq, Repr

/-- What values an option or operand can have. -/
inductive ValueKind where
  | text
  /-- Any text but the empty one. -/
  | path
  | word (words : List String)
  | signed64
  | unsigned64
  | unsigned32
  deriving DecidableEq, Repr

def ValueKind.check (value : String) : ValueKind → Except UsageFault Unit
  | text => .ok ()
  | path => if value = "" then .error .invalidValue else .ok ()
  | word words => if words.contains value then .ok () else .error .invalidValue
  | signed64 => if (Number.signed64? value).isSome then .ok () else .error .invalidNumber
  | unsigned64 => if (Number.unsigned64? value).isSome then .ok () else .error .invalidNumber
  | unsigned32 => if (Number.unsigned32? value).isSome then .ok () else .error .invalidNumber

/-- An option that has a value, or an operand. -/
structure Parameter where
  name : String
  kind : ValueKind
  required : Bool
  deriving DecidableEq, Repr

/-- What can stand on a command line. -/
inductive Grammar where
  /-- A command with its options, switches, options that exclude each other, and operands. -/
  | command (options : List Parameter) (switches : List String)
      (conflicts : List (String × String)) (operands : List Parameter)
  | group (members : List (String × Grammar))

/-- The options that are understood everywhere. -/
structure Globals where
  /-- The options that have a value. -/
  options : List Parameter
  /-- The options that are given by the environment, if at all. -/
  environment : List String

/-- What was given on a command line, or on a part of it. -/
structure Given where
  /-- The commands that were named, from the outside to the inside. -/
  commands : List String
  /-- The values of options and operands, those further inside first. -/
  values : List (String × String)
  switches : List String
  deriving DecidableEq, Repr

/-- The value of an option or operand. -/
def Given.value? (g : Given) (name : String) : Option String :=
  (g.values.find? fun v ↦ v.1 = name).map (·.2)

/-! ## One level -/

/-- What has been read of one level. -/
structure Level where
  /-- The values that have been judged. -/
  values : List (String × String)
  switches : List String
  /-- The parameter that has been named last, with its value if it has come. -/
  pending : Option (Parameter × Option String)
  operands : Nat
  /-- Whether everything that follows is an operand. -/
  onlyOperands : Bool
  /-- Whether anything was given. -/
  isGiven : Bool

namespace Level

def start : Level := ⟨[], [], none, 0, false, false⟩

/-- Takes the value of a parameter. -/
def take (l : Level) (p : Parameter) (value : String) : Except UsageFault Level :=
  if l.values.any fun v ↦ v.1 = p.name then .error .conflict
  else (p.kind.check value).map fun _ ↦
    { l with values := (p.name, value) :: l.values, isGiven := true }

/-- Judges the value of the parameter that was named last. -/
def settle (l : Level) : Except UsageFault Level :=
  match l.pending with
  | none => .ok l
  | some (p, some value) => { l with pending := none }.take p value
  | some (_, none) => .error .invalidValue

def takeSwitch (l : Level) (name : String) (mayRepeat : Bool) : Except UsageFault Level := do
  let l ← l.settle
  if !mayRepeat && l.switches.contains name then .error .conflict
  else .ok { l with switches := name :: l.switches, isGiven := true }

def name (l : Level) (p : Parameter) : Except UsageFault Level := do
  let l ← l.settle
  .ok { l with pending := some (p, none) }

end Level

namespace Grammar

def options : Grammar → List Parameter
  | command options _ _ _ => options
  | group _ => []

def switches : Grammar → List String
  | command _ switches _ _ => switches
  | group _ => []

def operands : Grammar → List Parameter
  | command _ _ _ operands => operands
  | group _ => []

def isGroup : Grammar → Bool
  | group _ => true
  | command _ _ _ _ => false

def member? (name : String) : Grammar → Option Grammar
  | group members => (members.find? fun m ↦ m.1 = name).map (·.2)
  | command _ _ _ _ => none

end Grammar

/-- The switch that asks for more to be logged. -/
def verbose : String := "verbose"

private def splitEquals (cs : List Char) : List Char × Option (List Char) :=
  match cs.dropWhile (· ≠ '=') with
  | _ :: value => (cs.takeWhile (· ≠ '='), some value)
  | [] => (cs, none)

/-- A switch behind two hyphens. -/
def readSwitch (g : Grammar) (isTop : Bool) (l : Level) (name : String) (value : Option String) :
    Except UsageFault Level := do
  let known := name = "help" || name = verbose || (isTop && name = "version") ||
    g.switches.contains name
  if !known then .error .unknownArgument
  else if value.isSome then .error .needlessValue
  else
    let l ← l.takeSwitch name (name = verbose)
    if name = "help" then .error .help
    else if name = "version" then .error .version
    else .ok l

/-- An option behind two hyphens. -/
def readLong (globals : Globals) (g : Grammar) (isTop : Bool) (l : Level) (cs : List Char) :
    Except UsageFault Level :=
  let (name, value) := splitEquals cs
  let name := String.ofList name
  let value := value.map String.ofList
  match (g.options ++ globals.options).find? fun p ↦ p.name = name with
  | some p =>
    match value with
    | some value => do (← l.settle).take p value
    | none => l.name p
  | none => readSwitch g isTop l name value

/-- Switches behind one hyphen. -/
def readShort (isTop : Bool) (l : Level) : List Char → Except UsageFault Level
  | [] => .ok l
  | c :: rest => do
    if c = 'v' then readShort isTop (← l.takeSwitch verbose true) rest
    else if c = 'h' then
      let _ ← l.settle
      .error .help
    else if c = 'V' && isTop then
      let _ ← l.settle
      .error .version
    else .error .unknownArgument

def readOperand (g : Grammar) (l : Level) (arg : String) : Except UsageFault Level :=
  match g.operands[l.operands]? with
  | some p => do
    let l ← l.settle
    .ok { l with pending := some (p, some arg), operands := l.operands + 1, isGiven := true }
  | none =>
    if g.isGroup && !(l.onlyOperands && (g.member? arg).isSome) then .error .unknownCommand
    else .error .unknownArgument

/-- An argument that is no command. -/
def readArgument (globals : Globals) (g : Grammar) (isTop : Bool) (l : Level) (arg : String) :
    Except UsageFault Level :=
  if l.onlyOperands then readOperand g l arg
  else
    match arg.toList with
    | ['-', '-'] => .ok { l with onlyOperands := true }
    | '-' :: '-' :: cs => readLong globals g isTop l cs
    | '-' :: c :: cs => readShort isTop l (c :: cs)
    | _ =>
      match l.pending with
      | some (p, none) => .ok { l with pending := some (p, some arg) }
      | _ => readOperand g l arg

/-- Whether an argument may be the name of a command. -/
def Level.expectsCommand (l : Level) : Bool :=
  !l.onlyOperands && !(l.pending.any fun p ↦ p.2.isNone)

/-- Judges a level that has been read to its end. -/
def judge (globals : Globals) (g : Grammar) (hasCommand : Bool) (l : Level) :
    Except UsageFault Level := do
  let l ← l.settle
  match g with
  | .group _ =>
    if hasCommand then .ok l
    else if l.isGiven || !globals.environment.isEmpty then .error .noCommand
    else .error .helpForNothing
  | .command options _ conflicts operands =>
    let has (name : String) : Bool := l.values.any fun v ↦ v.1 = name
    if conflicts.any fun c ↦ has c.1 && has c.2 then .error .conflict
    else if (options ++ operands).any fun p ↦ p.required && !has p.name then .error .missing
    else .ok l

/-- What the word `help` in place of a command leads to. -/
def readHelp (g : Grammar) : List String → UsageFault
  | [] => .help
  | arg :: rest =>
    match g.member? arg with
    | some g => readHelp g rest
    | none => if arg = "help" && g.isGroup && rest.isEmpty then .help else .unknownCommand

/-- Reads the arguments of a level. -/
def readLevel (globals : Globals) (isTop : Bool) (g : Grammar) (l : Level) :
    List String → Except UsageFault Given
  | [] => do
    let l ← judge globals g false l
    .ok ⟨[], l.values, l.switches⟩
  | arg :: rest =>
    match if l.expectsCommand then g.member? arg else none with
    | some inner => do
      let given ← readLevel globals false inner .start rest
      let l ← judge globals g true l
      .ok ⟨arg :: given.commands, given.values ++ l.values, given.switches ++ l.switches⟩
    | none =>
      if arg = "help" && g.isGroup && l.expectsCommand then .error (readHelp g rest)
      else do readLevel globals isTop g (← readArgument globals g isTop l arg) rest

def read (globals : Globals) (g : Grammar) (args : List String) : Except UsageFault Given :=
  readLevel globals true g .start args

end RecordLinkage.CommandLine
