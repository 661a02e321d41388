/-!
# Operators

The two connectives that join conditions and the five comparators that stand between operands, with
the symbols they are written by.
-/

namespace ConditionTree

/-- Joins two conditions, or is the polarity inside a group. -/
inductive Connective
  | and
  | or
deriving DecidableEq, Repr, Inhabited

namespace Connective

def symbol : Connective → String
  | and => "&&"
  | or => "||"

def ofSymbol? : String → Option Connective
  | "&&" => some and
  | "||" => some or
  | _ => none

/-- Settings also accept the names, in small or in capital letters only. -/
def ofName? : String → Option Connective
  | "&&" | "and" | "AND" => some and
  | "||" | "or" | "OR" => some or
  | _ => none

/-- The polarity inside a new group, so that the group differs from what surrounds it. -/
def complement : Connective → Connective
  | and => or
  | or => and

@[simp] theorem complement_complement (o : Connective) : o.complement.complement = o := by
  cases o <;> rfl

theorem complement_ne (o : Connective) : o.complement ≠ o := by
  cases o <;> decide

@[simp] theorem ofSymbol?_symbol (o : Connective) : ofSymbol? o.symbol = some o := by
  cases o <;> rfl

theorem symbol_of_ofSymbol? {s : String} {o : Connective} (h : ofSymbol? s = some o) :
    o.symbol = s := by
  unfold ofSymbol? at h
  split at h <;> cases h <;> rfl

@[simp] theorem ofName?_symbol (o : Connective) : ofName? o.symbol = some o := by
  cases o <;> rfl

end Connective

/-- Stands between the two operands of a comparison. -/
inductive Comparator
  | less
  | atMost
  | greater
  | atLeast
  | equal
deriving DecidableEq, Repr, Inhabited

namespace Comparator

def symbol : Comparator → String
  | less => "<"
  | atMost => "<="
  | greater => ">"
  | atLeast => ">="
  | equal => "=="

def ofSymbol? : String → Option Comparator
  | "<" => some less
  | "<=" => some atMost
  | ">" => some greater
  | ">=" => some atLeast
  | "==" => some equal
  | _ => none

@[simp] theorem ofSymbol?_symbol (o : Comparator) : ofSymbol? o.symbol = some o := by
  cases o <;> rfl

theorem symbol_of_ofSymbol? {s : String} {o : Comparator} (h : ofSymbol? s = some o) :
    o.symbol = s := by
  unfold ofSymbol? at h
  split at h <;> cases h <;> rfl

end Comparator

end ConditionTree
