import ConditionTree.CommandLine.Arguments
import ConditionTree.Condition.Outline
import ConditionTree.Config
import ConditionTree.Diff
import ConditionTree.Document
import ConditionTree.Edit.Change
import ConditionTree.Summary

/-!
# Running a command

A command line is answered by a function of its arguments, the environment and the files: an exit
code, what is printed, and at most one file that is written. A failing command prints no result, but
for the report on a condition that breaks the rules.
-/

namespace ConditionTree.CommandLine

/-- Why a file cannot be read or written. -/
inductive FileError
  | notFound
  | notDirectory
  | isDirectory
  | permissionDenied
  | notUnicode
  | other (text : String)
deriving DecidableEq, Repr

def FileError.message : FileError → String
  | notFound => "No such file or directory (os error 2)"
  | notDirectory => "Not a directory (os error 20)"
  | isDirectory => "Is a directory (os error 21)"
  | permissionDenied => "Permission denied (os error 13)"
  | notUnicode => "stream did not contain valid UTF-8"
  | other text => text

/-- What a command finds around it. -/
structure Surroundings where
  environment : String → Option String
  read : String → Except FileError String
  /-- Why a file cannot be written, if it cannot. -/
  writeError? : String → Option FileError

/-- Why a command fails. -/
inductive Failure
  | configUnreadable (path : String) (error : FileError)
  | configInvalid (path : String)
  | unreadable (path : String) (error : FileError)
  | unparsable (path : String)
  | badCondition (path : String) (error : DocumentError)
  | nothingToEdit (path : String)
  | noCondition (path : String)
  | badPlace (error : PathError)
  | edit (intent : Intent) (path : Path) (error : EditError)
  | document (error : DocumentError)
  | unwritable (path : String) (error : FileError)
  | violations (count : Nat) (path : String)
deriving Repr

def Failure.message : Failure → String
  | configUnreadable path e =>
    "Failed to load config: Failed to read config file '" ++ path ++ "': " ++ e.message ++ ": " ++
      e.message
  | configInvalid path => "Failed to load config: Failed to parse config file '" ++ path ++ "'"
  | unreadable path e => "Failed to read '" ++ path ++ "': " ++ e.message ++ ": " ++ e.message
  | unparsable path => "Failed to parse '" ++ path ++ "'"
  | badCondition path e => "Invalid condition in '" ++ path ++ "': " ++ e.message
  | nothingToEdit path => "'" ++ path ++ "' holds no condition to edit (the condition is null)"
  | noCondition path => "'" ++ path ++ "' holds no condition"
  | badPlace e => e.message
  | edit intent path e => "Failed to " ++ intent.name ++ " at " ++ path.text ++ ": " ++ e.message
  | document e => e.message
  | unwritable path e => "Failed to write output file '" ++ path ++ "': " ++ e.message
  | violations count path =>
    toString count ++ " violation(s) found in '" ++ path ++ "'"

/-- What a command has worked out. -/
structure Answer where
  content : String
  /-- What is shown beside the content. -/
  notes : String := ""
  /-- Why the command fails although it has an answer. -/
  failure : Option Failure := none

/-- What is seen of a command from outside. -/
structure Outcome where
  code : Nat
  stdout : String := ""
  stderr : String := ""
  /-- The file that is written, with its text. -/
  written : Option (String × String) := none
deriving DecidableEq, Repr

variable (s : Surroundings) (i : Invocation)

/-- The variable that may hold the path of the settings. -/
def configVariable : String := "CONDITION_EDITOR_CONFIG"

/-- The variable that turns colors on, unless it is zero. -/
def forceColorVariable : String := "CLICOLOR_FORCE"

/-- Whether to color. Left to itself a program that does not print to a terminal does not, unless
the environment forces it. -/
def Invocation.colored : Bool :=
  match i.color with
  | .always => true
  | .never => false
  | .auto => (s.environment forceColorVariable).any (· ≠ "0")

def loadConfig : Except Failure Config :=
  match i.config with
  | none => .ok {}
  | some path =>
    match s.read path with
    | .error e => .error (.configUnreadable path e)
    | .ok text =>
      match Config.ofText? text with
      | some config => .ok config
      | none => .error (.configInvalid path)

def loadDocument : Except Failure Document :=
  match s.read i.file with
  | .error e => .error (.unreadable i.file e)
  | .ok text =>
    match Json5.document? text with
    | some root => .ok (.new root i.pointer)
    | none => .error (.unparsable i.file)

/-- The document with its condition. -/
def loadCondition : Except Failure (Document × Option Condition) := do
  let d ← loadDocument s i
  match d.condition with
  | .ok c => return (d, c)
  | .error e => .error (.badCondition i.file e)

def jsonText (config : Config) (v : Json) : String :=
  if config.pretty then v.pretty else v.compact

def view (config : Config) (c : Option Condition) : String :=
  match i.format, c with
  | .json, c => jsonText config ((c.map Condition.toJson).getD .null)
  | .text, some c => c.text ++ "\n\n" ++ c.outline (i.colored s)
  | .text, none => "(no condition)"

def info (config : Config) (c : Condition) : String :=
  match i.format with
  | .json => jsonText config (Summary.of c).toJson
  | .text => (Summary.of c).text (i.colored s)

/-- The report on a condition, which makes the command fail if it is not empty. -/
def report (config : Config) (c : Condition) : Answer :=
  let violations := c.validate
  let content := match i.format with
    | .json => jsonText config (.array (violations.map Violation.toJson))
    | .text =>
      if violations.isEmpty then "ok"
      else String.intercalate "\n" (violations.map Violation.message)
  { content
    failure := if violations.isEmpty then none else some (.violations violations.length i.file) }

def replaced (config : Config) (d : Document) (c : Option Condition) : Except Failure String :=
  match d.replace c with
  | .ok v => .ok (jsonText config v)
  | .error e => .error (.document e)

def edit (config : Config) (intent : Intent) (o : EditOptions) : Except Failure Answer := do
  let (d, c) ← loadCondition s i
  match c with
  | none => .error (.nothingToEdit i.file)
  | some root =>
    let path ← (Path.ofText o.place).mapError .badPlace
    let editor : Editor := ⟨config.editDefaults, ⟨o.session⟩⟩
    let new ← (editor.apply root path intent).2.mapError (.edit intent path)
    let content ←
      if o.envelope then pure (jsonText config (Change.mk new).toJson) else replaced config d new
    return { content, notes := if o.diff then Diff.trees (i.colored s) (some root) new else "" }

/-- The answer of a command. The settings are loaded before the document. -/
def answer : Except Failure Answer := do
  let config ← loadConfig s i
  match i.command with
  | .edit intent o => edit s i config intent o
  | .view =>
    let (_, c) ← loadCondition s i
    return { content := view s i config c }
  | .info =>
    let (_, c) ← loadCondition s i
    match c with
    | some c => return { content := info s i config c }
    | none => .error (.noCondition i.file)
  | .validate fix =>
    let (d, c) ← loadCondition s i
    match c with
    | none => return { content := "(no condition)" }
    | some c =>
      if fix then return { content := ← replaced config d (some c.flatten) }
      else return report i config c

def errorLine (f : Failure) : String :=
  Style.red.paint (i.colored s) ("Error: " ++ f.message) ++ "\n"

/-- The text with a newline at its end. -/
def endLine (text : String) : String :=
  if text.toList.getLast? = some '\n' then text else text ++ "\n"

/-- Sends an answer where it should go. The terminal gets exactly one newline at the end. -/
def emit (a : Answer) : Outcome :=
  let outcome : Outcome :=
    { code := if a.failure.isSome then 1 else 0
      stderr := a.notes ++ (a.failure.map (errorLine s i)).getD "" }
  match i.output with
  | none => { outcome with stdout := Diff.dropNewlines a.content ++ "\n" }
  | some path =>
    match s.writeError? path with
    | some e => { code := 1, stderr := a.notes ++ errorLine s i (.unwritable path e) }
    | none => { outcome with written := some (path, endLine a.content) }

def run : Outcome :=
  match answer s i with
  | .ok a => emit s i a
  | .error f => { code := 1, stderr := errorLine s i f }

def versionText : String := "condition-editor 0.1.0\n"

def helpText : String :=
  String.join (["Inspect and edit aggregation conditions of event definitions", "",
    "Usage: condition-editor [OPTIONS] <COMMAND>", "",
    "Commands:",
    "  show <FILE>              print the condition as text and as a tree",
    "  info <FILE>              summarize the condition",
    "  validate <FILE>          check the condition [--fix]",
    "  add-expression <FILE>    join a node with a comparison",
    "  add-group <FILE>         join a node with a group of the other polarity",
    "  delete <FILE>            remove a node",
    "  set-operator <FILE>      --operator and|or",
    "  set-comparison <FILE>    --operator lt|lte|gt|gte|eq",
    "  set-value <FILE>         --value NUMBER",
    "  set-ref <FILE>           --ref SERIES", "",
    "Options of every command:",
    "  --config PATH, --pointer POINTER, -o/--output PATH, -F/--format text|json,",
    "  --color auto|always|never, -v/--verbose, -q/--quiet, -h/--help, -V/--version", "",
    "Options of an edit:",
    "  --at PATH, --session-operator and|or, --envelope, --diff"].map (· ++ "\n"))

/-- The outcome of a whole command line. -/
def respond (s : Surroundings) (arguments : List String) : Outcome :=
  match Request.ofArguments (s.environment configVariable) arguments with
  | .run i => run s i
  | .version => { code := 0, stdout := versionText }
  | .help => { code := 0, stdout := helpText }
  | .misuse => { code := 2, stderr := helpText }

end ConditionTree.CommandLine
