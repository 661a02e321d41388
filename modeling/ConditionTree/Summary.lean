import ConditionTree.Condition.Infix
import ConditionTree.Condition.Violation
import ConditionTree.Text.Paint

/-!
# Summaries

The figures of one condition tree, as JSON and as a text with a table.
-/

namespace ConditionTree

structure Summary where
  rendered : String
  nodeCount : Nat
  depth : Nat
  comparisons : Nat
  booleans : Nat
  groups : Nat
  numbers : Nat
  references : Nat
  andOperators : Nat
  orOperators : Nat
  /-- The largest number of groups around a node. -/
  groupLevel : Nat
  unsetReferences : Nat
  /-- The series in use, each once and in order. -/
  series : List String
  violations : List Violation
deriving DecidableEq, Repr

namespace Summary

/-- Puts a string into an ordered list that holds each string once. -/
def insertOnce (s : String) : List String → List String
  | [] => [s]
  | t :: rest =>
    if s = t then t :: rest else if s < t then s :: t :: rest else t :: insertOnce s rest

def seriesOf? : Condition → Option String
  | .reference series => series
  | _ => none

def of (c : Condition) : Summary :=
  let nodes := c.walk.map (·.2)
  let ofKind (k : NodeKind) := nodes.countP (·.kind = k)
  let ofConnective (o : Connective) := nodes.countP (·.connective? = some o)
  { rendered := c.text
    nodeCount := nodes.length
    depth := c.depth
    comparisons := ofKind .comparison
    booleans := ofKind .boolean
    groups := ofKind .group
    numbers := ofKind .number
    references := ofKind .reference
    andOperators := ofConnective .and
    orOperators := ofConnective .or
    groupLevel := (c.walk.map fun (path, _) => path.count .child).foldl max 0
    unsetReferences := nodes.countP (· = .reference none)
    series := (nodes.filterMap seriesOf?).foldr insertOnce []
    violations := c.validate }

def toJson (s : Summary) : Json :=
  .object [("and_operators", .int s.andOperators), ("booleans", .int s.booleans),
    ("comparisons", .int s.comparisons), ("depth", .int s.depth), ("groups", .int s.groups),
    ("max_group_level", .int s.groupLevel), ("node_count", .int s.nodeCount),
    ("number_refs", .int s.references), ("numbers", .int s.numbers),
    ("or_operators", .int s.orOperators), ("references", .array (s.series.map .string)),
    ("rendered", .string s.rendered), ("unset_refs", .int s.unsetReferences),
    ("violations", .array (s.violations.map Violation.toJson))]

/-! ### The table -/

/-- A text filled up with spaces to a width. -/
def pad (width : Nat) (s : String) : String :=
  s ++ String.ofList (List.replicate (width - s.length) ' ')

/-- A line across the table, drawn with one character and closed with three others. -/
def rule (widths : Nat × Nat) (left line cross right : Char) : String :=
  String.ofList (left :: (List.replicate (widths.1 + 2) line ++ cross ::
    (List.replicate (widths.2 + 2) line ++ [right])))

def row (widths : Nat × Nat) (cells : String × String) : String :=
  "│ " ++ pad widths.1 cells.1 ++ " ┆ " ++ pad widths.2 cells.2 ++ " │"

/-- A table of two columns, as wide as their widest cells. -/
def table (header : String × String) (rows : List (String × String)) : String :=
  let cells := header :: rows
  let widths := ((cells.map (·.1.length)).foldl max 0, (cells.map (·.2.length)).foldl max 0)
  String.intercalate "\n"
    ([rule widths '╭' '─' '┬' '╮', row widths header, rule widths '╞' '═' '╪' '╡'] ++
      (rows.map (row widths)).intersperse (rule widths '├' '╌' '┼' '┤') ++
      [rule widths '╰' '─' '┴' '╯'])

/-- How many nodes there are of each kind. -/
def counts (s : Summary) : List (String × String) :=
  [(NodeKind.comparison, s.comparisons), (.boolean, s.booleans), (.group, s.groups),
    (.number, s.numbers), (.reference, s.references)].map fun (kind, n) => (kind.name, toString n)

def lines (color : Bool) (s : Summary) : List String :=
  [Style.bold.paint color "CONDITION",
    Style.grey.paint color (String.ofList (List.replicate 80 '-')),
    s.rendered,
    "",
    table ("Node kind", "Count") s.counts,
    "",
    "Nodes:            " ++ toString s.nodeCount,
    "Depth:            " ++ toString s.depth,
    "Group nesting:    " ++ toString s.groupLevel,
    "Operators:        " ++ toString s.andOperators ++ " x &&, " ++ toString s.orOperators ++
      " x ||"] ++
  (if s.series.isEmpty then []
    else ["Series:           " ++ String.intercalate ", " s.series]) ++
  (if s.unsetReferences = 0 then []
    else [Style.yellow.paint color ("Unset series:     " ++ toString s.unsetReferences)]) ++
  s.violations.map fun v => Style.red.paint color ("Violation: " ++ v.message)

def text (color : Bool) (s : Summary) : String :=
  String.join ((s.lines color).map (· ++ "\n"))

end Summary

end ConditionTree
