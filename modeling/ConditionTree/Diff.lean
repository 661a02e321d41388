import ConditionTree.Condition.Wire
import ConditionTree.Text.Paint

/-!
# Differences

The shortest way from one list of lines to another that keeps, deletes and inserts lines. Of equally
short ways the one that deletes first is taken, so in every gap deletions stand before insertions.
-/

namespace ConditionTree

namespace Diff

/-- One step on the way from an old list to a new one. -/
inductive Step (α : Type)
  | keep (x : α)
  | delete (x : α)
  | insert (x : α)
deriving DecidableEq, Repr

/-- Steps with the number of those that change something. -/
structure Route (α : Type) where
  cost : Nat
  steps : List (Step α)
deriving Repr

variable {α : Type}

namespace Route

def done : Route α :=
  ⟨0, []⟩

def keep (x : α) (r : Route α) : Route α :=
  ⟨r.cost, .keep x :: r.steps⟩

def delete (x : α) (r : Route α) : Route α :=
  ⟨r.cost + 1, .delete x :: r.steps⟩

def insert (x : α) (r : Route α) : Route α :=
  ⟨r.cost + 1, .insert x :: r.steps⟩

end Route

/-- The shortest routes from one old list to every tail of the new one: each item of the new list
with the route to the tail that it starts, and the route to the empty tail. -/
structure Row (α : Type) where
  items : List (α × Route α)
  last : Route α

/-- The route to the first of the tails. -/
def firstRoute (items : List (α × Route α)) (last : Route α) : Route α :=
  match items with
  | [] => last
  | (_, r) :: _ => r

def Row.first (row : Row α) : Route α :=
  firstRoute row.items row.last

/-- The routes from the empty list, which only insert. -/
def Row.start : List α → Row α
  | [] => ⟨[], .done⟩
  | y :: ys =>
    let row := start ys
    ⟨(y, row.first.insert y) :: row.items, row.last⟩

variable [DecidableEq α]

/-- The routes once an item stands before the old list. Equal items are kept; otherwise the cheaper
of a deletion and an insertion goes first. -/
def extendItems (x : α) (last : Route α) : List (α × Route α) → List (α × Route α)
  | [] => []
  | (y, below) :: rest =>
    let extended := extendItems x last rest
    let right := firstRoute extended (last.delete x)
    let here :=
      if x = y then (firstRoute rest last).keep x
      else if below.cost ≤ right.cost then below.delete x
      else right.insert y
    (y, here) :: extended

def Row.extend (x : α) (row : Row α) : Row α :=
  ⟨extendItems x row.last row.items, row.last.delete x⟩

/-- The steps of a shortest way from the old list to the new one. -/
def script (old new : List α) : List (Step α) :=
  (old.foldr Row.extend (Row.start new)).first.steps

/-! ### Lines -/

/-- The lines of a text with their ends. A line ends after `\r\n`, `\r` or `\n`. -/
def splitLines : List Char → List (List Char)
  | [] => []
  | '\r' :: '\n' :: rest => ['\r', '\n'] :: splitLines rest
  | c :: rest =>
    if c = '\r' ∨ c = '\n' then [c] :: splitLines rest
    else
      match splitLines rest with
      | [] => [[c]]
      | line :: more => (c :: line) :: more

def lines (text : String) : List String :=
  (splitLines text.toList).map String.ofList

/-- The text without the newlines at its end. -/
def dropNewlines (s : String) : String :=
  String.ofList (s.toList.reverse.dropWhile (· == '\n')).reverse

/-- The record of a step: a sign, and the line without its newline. -/
def record (color : Bool) : Step String → String
  | .keep line => "  " ++ dropNewlines line ++ "\n"
  | .delete line => Style.red.paint color ("- " ++ dropNewlines line) ++ "\n"
  | .insert line => Style.green.paint color ("+ " ++ dropNewlines line) ++ "\n"

/-- The difference of two texts, one record for each line. -/
def text (color : Bool) (old new : String) : String :=
  String.join ((script (lines old) (lines new)).map (record color))

/-- The pretty JSON of a tree, or null for none, as a text of whole lines. -/
def treeText (c : Option Condition) : String :=
  ((c.map Condition.toJson).getD .null).pretty ++ "\n"

/-- The difference of two trees in pretty JSON. -/
def trees (color : Bool) (old new : Option Condition) : String :=
  text color (treeText old) (treeText new)

end Diff

end ConditionTree
