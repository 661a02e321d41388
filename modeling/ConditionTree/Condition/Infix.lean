import ConditionTree.Condition
import ConditionTree.Number.Layout

/-!
# Infix text

A condition in one line, as `count() > 10 && (avg(took_ms) >= 200 || <unset> < 0.5)`. The text of
`&&` binds tighter than that of `||`, so a boolean node under one of the other connective stands in
brackets, as every group does.
-/

namespace ConditionTree.Condition

/-- What stands for a series that is not chosen yet. -/
def unsetText : String := "<unset>"

def numberText (x : Double) : String :=
  String.ofList (NumberLayout.plain.text x)

def bracketed (text : String) : String :=
  "(" ++ text ++ ")"

/-- A boolean node of the other connective. -/
def isMixed (o : Connective) : Condition → Bool
  | boolean o' _ _ => o' ≠ o
  | _ => false

def text : Condition → String
  | number x => numberText x
  | reference none => unsetText
  | reference (some series) => series
  | comparison o l r => l.text ++ " " ++ o.symbol ++ " " ++ r.text
  | boolean o l r =>
    (if isMixed o l then bracketed l.text else l.text) ++ " " ++ o.symbol ++ " " ++
      (if isMixed o r then bracketed r.text else r.text)
  | group _ child => bracketed child.text

end ConditionTree.Condition
