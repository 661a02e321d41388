import ConditionTree.Edit.Editor

/-!
# Invocations

What a command line asks for, once its arguments are understood.
-/

namespace ConditionTree.CommandLine

inductive OutputFormat
  | text
  | json
deriving DecidableEq, Repr

inductive ColorMode
  | auto
  | always
  | never
deriving DecidableEq, Repr

/-- What is said about an edit besides the intent. -/
structure EditOptions where
  /-- The path of the node, as it was typed. -/
  place : String
  /-- The connective chosen earlier in the session. -/
  session : Option Connective
  /-- Whether the change is printed in place of the document. -/
  envelope : Bool
  /-- Whether the difference is shown beside the result. -/
  diff : Bool
deriving DecidableEq, Repr

inductive Command
  | view
  | info
  | validate (fix : Bool)
  | edit (intent : Intent) (options : EditOptions)
deriving DecidableEq, Repr

structure Invocation where
  command : Command
  /-- The document that holds the condition. -/
  file : String
  config : Option String
  pointer : Option String
  /-- Where the result goes in place of the terminal. -/
  output : Option String
  format : OutputFormat
  color : ColorMode
deriving DecidableEq, Repr

/-- What to do for a list of arguments. -/
inductive Request
  | run (invocation : Invocation)
  | version
  | help
  /-- The arguments make no sense. -/
  | misuse
deriving DecidableEq, Repr

end ConditionTree.CommandLine
