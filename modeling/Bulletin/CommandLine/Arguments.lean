import Bulletin.Ident

/-!
# Arguments of the command line

An invocation is a list of words: a command, the command's own options, and the option for the
file of settings, which may stand before or behind the command. An option has a long name after two
hyphens and a letter after one; its value is the next word, or stands behind an equals sign or, for
a letter, directly behind it. A word that begins with a hyphen is never the value of the option in
front of it, unless it is a lone hyphen. No option may be given twice.

Words are read from the first to the last, and the first one that is wrong, or that asks for help,
ends the reading. A value that stands in a word of its own is not checked before the next option of
its level or, if there is none, before all words behind it are read. So a request for help further
down comes before a wrong value.
-/

namespace Bulletin.CommandLine

/-! ## Options -/

/-- Why words are no invocation. -/
inductive Refusal where
  /-- the words ask for help -/
  | help
  /-- the words are wrong -/
  | usage
deriving DecidableEq

/-- An option with a value. -/
structure OptionSpec where
  long : String
  short : Char
deriving DecidableEq

def configOption : OptionSpec := ⟨"config", 'c'⟩

/-- What one word is, where options may stand. -/
inductive Word where
  /-- an option, with the value that stands in the same word -/
  | option (spec : OptionSpec) (value : Option String)
  | help
  /-- two hyphens, behind which there are no more options -/
  | stop
  | plain (text : String)
  | unknown
deriving DecidableEq

/-- The option with a long name, as a word. -/
def longWord (specs : List OptionSpec) (body : List Char) : Word :=
  let name := body.takeWhile (· != '=')
  let value := match body.drop name.length with
    | [] => none
    | _ :: value => some (String.ofList value)
  if name = "help".toList then (if value.isNone then .help else .unknown)
  else
    match specs.find? fun spec => spec.long.toList = name with
    | some spec => .option spec value
    | none => .unknown

/-- The option with a letter, as a word. -/
def shortWord (specs : List OptionSpec) (letter : Char) (rest : List Char) : Word :=
  if letter = 'h' then .help
  else
    match specs.find? fun spec => spec.short = letter with
    | none => .unknown
    | some spec =>
      match rest with
      | [] => .option spec none
      | '=' :: value => .option spec (some (String.ofList value))
      | value => .option spec (some (String.ofList value))

/-- Reads one word. -/
def word (specs : List OptionSpec) (text : String) : Word :=
  match text.toList with
  | ['-', '-'] => .stop
  | '-' :: '-' :: body => longWord specs body
  | '-' :: letter :: rest => shortWord specs letter rest
  | _ => .plain text

/-- Whether a word can be the value of the option in front of it. -/
def canBeValue (text : String) : Bool := text = "-" || text.toList.head? ≠ some '-'

/-- Values by the long names of their options. -/
abbrev Values := List (String × String)

/-- Adds the value of an option. -/
def addValue (check : String → String → Bool) (values : Values) (spec : OptionSpec)
    (value : String) : Except Refusal Values :=
  if (lookupValue? spec.long values).isSome || !check spec.long value then .error .usage
  else .ok (values ++ [(spec.long, value)])

/-- The options that were read: the values that were checked, and the last value, if it stood in a
word of its own and was not checked yet. -/
structure Given where
  values : Values
  pending : Option (OptionSpec × String)

/-- Checks the value that was not checked yet. -/
def Given.settle (check : String → String → Bool) (given : Given) : Except Refusal Values :=
  match given.pending with
  | none => .ok given.values
  | some (spec, value) => addValue check given.values spec value

/-- Reads options up to the first plain word or the end. `check` tells whether a text may be the
value of an option. -/
def readOptions (specs : List OptionSpec) (check : String → String → Bool) :
    Given → List String → Except Refusal (Given × List String)
  | given, [] => .ok (given, [])
  | given, text :: rest =>
    match word specs text with
    | .plain _ => .ok (given, text :: rest)
    | .help => do
      let _ ← given.settle check
      .error .help
    | .unknown => .error .usage
    | .stop => if rest.isEmpty then .ok (given, []) else .error .usage
    | .option spec (some value) => do
      let values ← addValue check (← given.settle check) spec value
      readOptions specs check ⟨values, none⟩ rest
    | .option spec none =>
      match rest with
      | [] => .error .usage
      | value :: rest =>
        if canBeValue value then do
          let values ← given.settle check
          readOptions specs check ⟨values, some (spec, value)⟩ rest
        else .error .usage

/-! ## Commands -/

inductive Command where
  /-- store the definitions of a file -/
  | importFile (file : String)
  /-- list the reports -/
  | reports
  /-- run a report -/
  | run (report : ReportId)
  /-- list the executions of a report -/
  | executions (report : ReportId)
  /-- load a dashboard -/
  | dashboard (id : DashboardId)
  /-- evaluate the alert rules -/
  | evaluate
  /-- list the alerts, of one rule or all -/
  | alerts (rule : Option RuleId)
  | acknowledge (alert : AlertId) (person : Option String)
  | resolve (alert : AlertId) (reason : String)
deriving DecidableEq

structure Invocation where
  /-- the file of settings -/
  config : String
  command : Command
deriving DecidableEq

/-- Where the settings lie if nothing is said. -/
def standardConfig : String := "prism.json"

/-- The reason of a resolution for which none is given. -/
def standardReason : String := "resolved manually"

/-- The identifier in a value. -/
def idValue? (kind : EntityKind) (values : Values) (name : String) : Option (Id kind) :=
  (lookupValue? name values).bind Id.ofString?

/-- A command with its options, the values that they accept, and the command that they give. -/
structure CommandSpec where
  name : String
  options : List OptionSpec
  check : String → String → Bool
  build : Values → Option Command

/-- A text that is not empty. -/
def isPath (text : String) : Bool := text ≠ ""

/-- Whether a text is an identifier of a kind. -/
def isId (kind : EntityKind) (text : String) : Bool := (Id.ofString? text : Option (Id kind)).isSome

/-- The commands at the top. -/
def commandSpecs : List CommandSpec := [
  { name := "import"
    options := [⟨"file", 'f'⟩]
    check := fun _ value => isPath value
    build := fun values => (lookupValue? "file" values).map .importFile },
  { name := "reports"
    options := []
    check := fun _ _ => true
    build := fun _ => some .reports },
  { name := "run"
    options := [⟨"report", 'r'⟩]
    check := fun _ value => isId .report value
    build := fun values => (idValue? .report values "report").map .run },
  { name := "executions"
    options := [⟨"report", 'r'⟩]
    check := fun _ value => isId .report value
    build := fun values => (idValue? .report values "report").map .executions },
  { name := "dashboard"
    options := [⟨"id", 'i'⟩]
    check := fun _ value => isId .dashboard value
    build := fun values => (idValue? .dashboard values "id").map .dashboard },
  { name := "serve"
    options := []
    check := fun _ _ => true
    build := fun _ => none }]

/-- The commands under `alerts`. -/
def alertSpecs : List CommandSpec := [
  { name := "evaluate"
    options := []
    check := fun _ _ => true
    build := fun _ => some .evaluate },
  { name := "list"
    options := [⟨"rule", 'r'⟩]
    check := fun _ value => isId .rule value
    build := fun values => some (.alerts (idValue? .rule values "rule")) },
  { name := "ack"
    options := [⟨"id", 'i'⟩, ⟨"by", 'b'⟩]
    check := fun name value => name ≠ "id" || isId .alert value
    build := fun values =>
      (idValue? .alert values "id").map fun id => .acknowledge id (lookupValue? "by" values) },
  { name := "resolve"
    options := [⟨"id", 'i'⟩, ⟨"reason", 'r'⟩]
    check := fun name value => name ≠ "id" || isId .alert value
    build := fun values =>
      (idValue? .alert values "id").map fun id =>
        .resolve id ((lookupValue? "reason" values).getD standardReason) }]

/-! ## Invocations -/

/-- What may be the values of the options of a level, the file of settings among them. -/
def checkLevel (check : String → String → Bool) (name value : String) : Bool :=
  if name = configOption.long then isPath value else check name value

/-- Reads the options of a level, the file of settings among them. -/
def readLevel (options : List OptionSpec) (check : String → String → Bool) (words : List String) :
    Except Refusal (Given × List String) :=
  readOptions (configOption :: options) (checkLevel check) ⟨[], none⟩ words

/-- A command and, if it was named at its level, the file of settings. -/
abbrev Chosen := Option String × Command

/-- Reads the words behind the name of a command. -/
def readCommand (spec : CommandSpec) (words : List String) : Except Refusal Chosen := do
  let (given, rest) ← readLevel spec.options spec.check words
  if rest ≠ [] then .error .usage
  else
    let values ← given.settle (checkLevel spec.check)
    match spec.build values with
    | some command => .ok (lookupValue? configOption.long values, command)
    | none => .error .usage

/-- Reads the words behind the name of one of some commands. -/
def readNamed (specs : List CommandSpec) (name : String) (words : List String) :
    Except Refusal Chosen :=
  match specs.find? fun spec => spec.name = name with
  | some spec => readCommand spec words
  | none => .error .usage

/-- What a request for help with some commands comes to. -/
def readHelp : List String → Refusal
  | [] => .help
  | ["alerts"] => .help
  | ["alerts", name] =>
    if name = "help" || (alertSpecs.any fun spec => spec.name = name) then .help else .usage
  | [name] =>
    if name = "help" || (commandSpecs.any fun spec => spec.name = name) then .help else .usage
  | _ => .usage

/-- Reads a level without options of its own: the file of settings and a name, and behind it what
`readRest` reads. A file that is named further down counts more. -/
def readGroup (readRest : String → List String → Except Refusal Chosen) (words : List String) :
    Except Refusal Chosen := do
  let check := fun _ _ => true
  match ← readLevel [] check words with
  | (_, []) => .error .usage
  | (given, name :: rest) =>
    let (config, command) ← readRest name rest
    let values ← given.settle (checkLevel check)
    .ok (config.or (lookupValue? configOption.long values), command)

/-- Reads the words behind `alerts`. -/
def readAlerts : List String → Except Refusal Chosen :=
  readGroup fun name rest =>
    if name = "help" then .error (readHelp ("alerts" :: rest)) else readNamed alertSpecs name rest

/-- Reads the words of an invocation. -/
def readWords (words : List String) : Except Refusal Invocation := do
  let (config, command) ← readGroup (fun name rest =>
    if name = "help" then .error (readHelp rest)
    else if name = "alerts" then readAlerts rest
    else readNamed commandSpecs name rest) words
  return ⟨config.getD standardConfig, command⟩

end Bulletin.CommandLine
