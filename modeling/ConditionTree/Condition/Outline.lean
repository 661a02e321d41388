import ConditionTree.Condition.Infix
import ConditionTree.Text.Paint

/-!
# Outlines

A tree with one node on a line, indented by its level and followed by its path, which can be given
back to name the node.
-/

namespace ConditionTree.Condition

/-- The kind of a node with its operator or its content. -/
def describe (color : Bool) : Condition → String
  | number x => Style.cyan.paint color "number" ++ " " ++ numberText x
  | reference none =>
    Style.cyan.paint color "number-ref" ++ " " ++ Style.red.paint color unsetText
  | reference (some series) =>
    Style.cyan.paint color "number-ref" ++ " " ++ Style.yellow.paint color series
  | comparison o _ _ =>
    Style.green.paint color "comparison" ++ " " ++ Style.bold.paint color o.symbol
  | boolean o _ _ => Style.magenta.paint color "boolean" ++ " " ++ Style.bold.paint color o.symbol
  | group o _ => Style.blue.paint color "group" ++ " " ++ Style.bold.paint color o.symbol

/-- The line of a node, without its end. -/
def outlineLine (color : Bool) (path : Path) (node : Condition) : String :=
  String.ofList (List.replicate (2 * path.length) ' ') ++ node.describe color ++ "  " ++
    Style.grey.paint color path.text

def outline (color : Bool) (c : Condition) : String :=
  String.join (c.walk.map fun (path, node) => outlineLine color path node ++ "\n")

end ConditionTree.Condition
