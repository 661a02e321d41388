import ConditionTree.CommandLine.Invocation
import ConditionTree.Number.Numeral

/-!
# Arguments

Arguments are read from left to right. Options that belong to every command may stand before the
command or after it, where the later place wins. A value is the next argument, or follows an equals
sign, or is attached to a short option. Within one place an option is given once at most.
-/

namespace ConditionTree.CommandLine

inductive CommandName
  | view
  | info
  | validate
  | addExpression
  | addGroup
  | delete
  | setOperator
  | setComparison
  | setValue
  | setRef
deriving DecidableEq, Repr

namespace CommandName

def ofText? : String → Option CommandName
  | "show" => some view
  | "info" => some info
  | "validate" => some validate
  | "add-expression" => some addExpression
  | "add-group" => some addGroup
  | "delete" => some delete
  | "set-operator" => some setOperator
  | "set-comparison" => some setComparison
  | "set-value" => some setValue
  | "set-ref" => some setRef
  | _ => none

def isEdit : CommandName → Bool
  | view | info | validate => false
  | _ => true

end CommandName

/-- The options, each with its own kind of value. -/
inductive OptionName
  | config
  | pointer
  | output
  | format
  | color
  | verbose
  | quiet
  | help
  | version
  | place
  | session
  | envelope
  | diff
  | fix
  | connective
  | comparator
  | value
  | series
deriving DecidableEq, Repr

namespace OptionName

def takesValue : OptionName → Bool
  | verbose | quiet | help | version | envelope | diff | fix => false
  | _ => true

/-- A long name that every command and the place before it know. -/
def shared? : String → Option OptionName
  | "config" => some config
  | "pointer" => some pointer
  | "output" => some output
  | "format" => some format
  | "color" => some color
  | "verbose" => some verbose
  | "quiet" => some quiet
  | "help" => some help
  | _ => none

/-- A long name that only some commands know. -/
def own? : CommandName → String → Option OptionName
  | .validate, "fix" => some fix
  | .setOperator, "operator" => some connective
  | .setComparison, "operator" => some comparator
  | .setValue, "value" => some value
  | .setRef, "ref" => some series
  | command, name =>
    if command.isEdit then
      match name with
      | "at" => some place
      | "session-operator" => some session
      | "envelope" => some envelope
      | "diff" => some diff
      | _ => none
    else none

/-- The option of a long name, before the command or after it. -/
def ofLong? (command : Option CommandName) (name : String) : Option OptionName :=
  match shared? name, command with
  | some o, _ => some o
  | none, some c => own? c name
  | none, none => if name = "version" then some version else none

/-- The option of a short name, before the command or after it. -/
def ofShort? (command : Option CommandName) (c : Char) : Option OptionName :=
  match c with
  | 'o' => some output
  | 'F' => some format
  | 'v' => some verbose
  | 'q' => some quiet
  | 'h' => some help
  | 'V' => if command.isNone then some version else none
  | _ => none

end OptionName

/-- What the arguments of one place give. -/
structure Given where
  file : Option String := none
  config : Option String := none
  pointer : Option String := none
  output : Option String := none
  format : Option OutputFormat := none
  color : Option ColorMode := none
  quiet : Bool := false
  place : Option String := none
  session : Option Connective := none
  envelope : Bool := false
  diff : Bool := false
  fix : Bool := false
  connective : Option Connective := none
  comparator : Option Comparator := none
  value : Option Double := none
  series : Option String := none
deriving DecidableEq, Repr

/-- Why reading ends before the last argument. -/
inductive Stop
  | misuse
  | version
  | help
deriving DecidableEq, Repr

/-! ### Values -/

/-- A path of a file is not empty. -/
def readPath (s : String) : Option String :=
  if s = "" then none else some s

def readFormat : String → Option OutputFormat
  | "text" => some .text
  | "json" => some .json
  | _ => none

def readColor : String → Option ColorMode
  | "auto" => some .auto
  | "always" => some .always
  | "never" => some .never
  | _ => none

def readConnective : String → Option Connective
  | "and" => some .and
  | "or" => some .or
  | _ => none

def readComparator : String → Option Comparator
  | "lt" => some .less
  | "lte" => some .atMost
  | "gt" => some .greater
  | "gte" => some .atLeast
  | "eq" => some .equal
  | _ => none

/-- A threshold is finite, since no other one can be stored. -/
def readThreshold (s : String) : Option Double :=
  (Numeral.readDouble? s).filter Double.isFinite

/-- A new value, if there is none yet. -/
def once {α : Type} (old new : Option α) : Except Stop (Option α) :=
  match old, new with
  | none, some x => .ok (some x)
  | _, _ => .error .misuse

def onceFlag (old : Bool) : Except Stop Bool :=
  if old then .error .misuse else .ok true

namespace Given

/-- An option without a value. -/
def setFlag (g : Given) : OptionName → Except Stop Given
  | .verbose => .ok g
  | .quiet => do return { g with quiet := ← onceFlag g.quiet }
  | .envelope => do return { g with envelope := ← onceFlag g.envelope }
  | .diff => do return { g with diff := ← onceFlag g.diff }
  | .fix => do return { g with fix := ← onceFlag g.fix }
  | .help => .error .help
  | .version => .error .version
  | _ => .error .misuse

/-- An option with its value. -/
def set (g : Given) (v : String) : OptionName → Except Stop Given
  | .config => do return { g with config := ← once g.config (readPath v) }
  | .pointer => do return { g with pointer := ← once g.pointer (some v) }
  | .output => do return { g with output := ← once g.output (readPath v) }
  | .format => do return { g with format := ← once g.format (readFormat v) }
  | .color => do return { g with color := ← once g.color (readColor v) }
  | .place => do return { g with place := ← once g.place (some v) }
  | .session => do return { g with session := ← once g.session (readConnective v) }
  | .connective => do return { g with connective := ← once g.connective (readConnective v) }
  | .comparator => do return { g with comparator := ← once g.comparator (readComparator v) }
  | .value => do return { g with value := ← once g.value (readThreshold v) }
  | .series => do return { g with series := ← once g.series (some v) }
  | _ => .error .misuse

def setFile (g : Given) (s : String) : Except Stop Given := do
  return { g with file := ← once g.file (readPath s) }

end Given

/-! ### Tokens -/

/-- What an argument is by its look. -/
inductive Token
  /-- Two dashes: no option follows. -/
  | stop
  | long (name : String) (attached : Option String)
  | short (letters : List Char)
  | word (text : String)
deriving DecidableEq, Repr

def Token.ofArgument (argument : String) : Token :=
  match argument.toList with
  | ['-', '-'] => .stop
  | '-' :: '-' :: rest =>
    match rest.dropWhile (· ≠ '=') with
    | [] => .long (String.ofList rest) none
    | _ :: attached =>
      .long (String.ofList (rest.takeWhile (· ≠ '='))) (some (String.ofList attached))
  | '-' :: c :: rest => .short (c :: rest)
  | _ => .word argument

/-- Marks the exponent of a number. -/
def isExponentMark (c : Char) : Bool :=
  c == 'e' || c == 'E'

/-- Digits with at most one point after the first of them and one exponent, which has no sign and is
not empty: what may follow a dash and still be a value. -/
def looksNumeric (letters : List Char) : Bool :=
  let mantissa := letters.takeWhile (!isExponentMark ·)
  let exponent := letters.dropWhile (!isExponentMark ·)
  let whole := mantissa.takeWhile (· ≠ '.')
  let fraction := (mantissa.dropWhile (· ≠ '.')).drop 1
  whole.all Char.isDigit && fraction.all Char.isDigit && !whole.isEmpty &&
    (exponent.isEmpty || exponent.length ≠ 1 && (exponent.drop 1).all Char.isDigit)

/-- Whether the next argument may be the value of an option. Only a threshold may start with a dash
and more, and only if it looks like a number. -/
def mayBeValue (o : OptionName) (argument : String) : Bool :=
  match Token.ofArgument argument with
  | .word _ => true
  | .short letters => o = .value && looksNumeric letters
  | _ => false

/-- Short options in one argument. The last one may be left without its value. -/
def readCluster (command : Option CommandName) (g : Given) :
    List Char → Except Stop (Given × Option OptionName)
  | [] => .ok (g, none)
  | c :: rest =>
    match OptionName.ofShort? command c with
    | none => .error .misuse
    | some o =>
      if o.takesValue then
        match rest with
        | [] => .ok (g, some o)
        | '=' :: attached => do return (← g.set (String.ofList attached) o, none)
        | attached => do return (← g.set (String.ofList attached) o, none)
      else do
        readCluster command (← g.setFlag o) rest

/-- What help can be asked about: everything, or one command. -/
def isHelpTopic : List String → Bool
  | [] => true
  | [name] => name = "help" || (CommandName.ofText? name).isSome
  | _ => false

/-- Reads the arguments of a place. Before the command they end with it: its name and the arguments
after it are left. -/
def readArguments (command : Option CommandName) (g : Given) :
    List String → Except Stop (Given × Option (CommandName × List String))
  | [] => .ok (g, none)
  | argument :: rest =>
    match Token.ofArgument argument with
    | .stop =>
      if command.isNone then (if rest.isEmpty then .ok (g, none) else .error .misuse)
      else do return (← rest.foldlM Given.setFile g, none)
    | .long name attached =>
      match OptionName.ofLong? command name, attached, rest with
      | none, _, _ => .error .misuse
      | some o, some v, rest => do
        if o.takesValue then readArguments command (← g.set v o) rest else .error .misuse
      | some o, none, [] =>
        if o.takesValue then .error .misuse else do return (← g.setFlag o, none)
      | some o, none, next :: rest => do
        if o.takesValue then
          if mayBeValue o next then readArguments command (← g.set next o) rest
          else .error .misuse
        else readArguments command (← g.setFlag o) (next :: rest)
    | .short letters => do
      let (g, wanting) ← readCluster command g letters
      match wanting with
      | none => readArguments command g rest
      | some o =>
        match rest with
        | [] => .error .misuse
        | next :: rest =>
          if mayBeValue o next then readArguments command (← g.set next o) rest
          else .error .misuse
    | .word text =>
      match command with
      | some _ => do readArguments command (← g.setFile text) rest
      | none =>
        match CommandName.ofText? text with
        | some name => .ok (g, some (name, rest))
        | none => .error (if text = "help" ∧ isHelpTopic rest then .help else .misuse)

/-! ### The whole line -/

/-- The intent of an edit command; an option that it needs may be missing. -/
def intentOf? (name : CommandName) (g : Given) : Option Intent :=
  match name with
  | .addExpression => some .addExpression
  | .addGroup => some .addGroup
  | .delete => some .delete
  | .setOperator => g.connective.map .setConnective
  | .setComparison => g.comparator.map .setComparator
  | .setValue => g.value.map .setValue
  | .setRef => g.series.map .setReference
  | .view | .info | .validate => none

def commandOf? (name : CommandName) (g : Given) : Option Command :=
  match name with
  | .view => some .view
  | .info => some .info
  | .validate => some (.validate g.fix)
  | _ => (intentOf? name g).map fun intent =>
    .edit intent ⟨g.place.getD "$", g.session, g.envelope, g.diff⟩

/-- The invocation of what stands before a command and after it. The settings may come from the
environment as well, where an empty path is as wrong as on the line. -/
def invocation? (environment : Option String) (name : CommandName) (before after : Given) :
    Option Invocation := do
  let command ← commandOf? name after
  let file ← after.file
  if environment = some "" ∧ ¬ (before.config.isSome ∧ after.config.isSome) then none
  return {
    command
    file
    config := (after.config.or before.config).or environment
    pointer := after.pointer.or before.pointer
    output := after.output.or before.output
    format := (after.format.or before.format).getD .text
    color := (after.color.or before.color).getD .auto }

/-- What a list of arguments asks for. `environment` is the path of the settings given there. -/
def Request.ofArguments (environment : Option String) (arguments : List String) : Request :=
  let result : Except Stop (Option Invocation) := do
    let (before, command) ← readArguments none {} arguments
    match command with
    | none => return none
    | some (name, rest) =>
      let (after, _) ← readArguments (some name) {} rest
      return invocation? environment name before after
  match result with
  | .ok (some invocation) => .run invocation
  | .ok none | .error .misuse => .misuse
  | .error .version => .version
  | .error .help => .help

end ConditionTree.CommandLine
