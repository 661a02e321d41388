import ConditionTree.Proofs.Runs

/-!
# Edits and the structural rules

`breaches` counts how often a tree breaks a rule, and has one equation for each kind of node. No edit raises the
count of either rule, on whatever tree: an addition brings in operands only, a group that would hold a group gives
way to it, and the side of a comparison stays an operand because nothing else can be made of one. A tree that breaks
no rule therefore breaks none after any run (`edits_add_no_violation`).
-/

namespace ConditionTree

namespace Violation

/-- The rules that a tree can break. -/
inductive Rule
  | nestedGroup
  | nonOperand
deriving DecidableEq, Repr

def rule : Violation → Rule
  | nestedGroup _ => .nestedGroup
  | nonOperand _ _ => .nonOperand

/-- The violation as it is seen from above a branch. -/
def under (b : Branch) : Violation → Violation
  | nestedGroup path => nestedGroup (b :: path)
  | nonOperand path kind => nonOperand (b :: path) kind

@[simp] theorem rule_under (b : Branch) (v : Violation) : (v.under b).rule = v.rule := by
  cases v <;> rfl

end Violation

open Violation (Rule)

namespace Condition

/-- How often a tree breaks a rule. -/
def breaches (rule : Rule) (c : Condition) : Nat :=
  c.validate.countP (·.rule = rule)

def sideBreach (rule : Rule) (side : Condition) : Nat :=
  if rule = .nonOperand ∧ side.isOperand = false then 1 else 0

def childBreach (rule : Rule) (child : Condition) : Nat :=
  if rule = .nestedGroup ∧ child.isGroup then 1 else 0

variable {rule : Rule} {o : Connective}

/-! ### Violations at a node and below it -/

theorem sideViolations_cons (b : Branch) (path : Path) (side : Condition) :
    sideViolations (b :: path) side = (sideViolations path side).map (Violation.under b) := by
  unfold sideViolations
  split_ifs <;> rfl

theorem violationsAt_cons (b : Branch) (path : Path) (c : Condition) :
    violationsAt (b :: path) c = (violationsAt path c).map (Violation.under b) := by
  cases c with
  | comparison o l r => simp only [violationsAt, List.cons_append, sideViolations_cons, List.map_append]
  | group o child =>
    simp only [violationsAt]
    split_ifs <;> rfl
  | _ => rfl

theorem flatMap_under (b : Branch) (c : Condition) :
    ((under b c.walk).flatMap fun (path, node) => violationsAt path node) = c.validate.map (Violation.under b) := by
  simp only [validate, under, List.flatMap_map, List.map_flatMap, violationsAt_cons]

theorem validate_comparison (o : Comparator) (l r : Condition) :
    (comparison o l r).validate = sideViolations [.left] l ++ sideViolations [.right] r ++
      (l.validate.map (Violation.under .left) ++ r.validate.map (Violation.under .right)) := by
  rw [← flatMap_under, ← flatMap_under, ← List.flatMap_append]
  rfl

theorem validate_boolean (o : Connective) (l r : Condition) :
    (boolean o l r).validate =
      l.validate.map (Violation.under .left) ++ r.validate.map (Violation.under .right) := by
  rw [← flatMap_under, ← flatMap_under, ← List.flatMap_append]
  rfl

theorem validate_group (o : Connective) (child : Condition) :
    (group o child).validate =
      (if child.isGroup then [.nestedGroup []] else []) ++ child.validate.map (Violation.under .child) := by
  rw [← flatMap_under]
  rfl

/-! ### Counting them -/

theorem countP_under (b : Branch) (c : Condition) :
    (c.validate.map (Violation.under b)).countP (·.rule = rule) = c.breaches rule := by
  rw [List.countP_map]
  simp only [Function.comp_def, Violation.rule_under, breaches]

theorem countP_sideViolations (path : Path) (side : Condition) :
    (sideViolations path side).countP (·.rule = rule) = sideBreach rule side := by
  unfold sideViolations sideBreach
  cases side.isOperand <;> cases rule <;> rfl

@[simp] theorem breaches_number (x : Double) : (number x).breaches rule = 0 := rfl

@[simp] theorem breaches_reference (s : Option String) : (reference s).breaches rule = 0 := rfl

theorem breaches_comparison (o : Comparator) (l r : Condition) :
    (comparison o l r).breaches rule =
      sideBreach rule l + sideBreach rule r + (l.breaches rule + r.breaches rule) := by
  rw [breaches, validate_comparison]
  simp only [List.countP_append, countP_sideViolations, countP_under]

@[simp] theorem breaches_boolean (o : Connective) (l r : Condition) :
    (boolean o l r).breaches rule = l.breaches rule + r.breaches rule := by
  rw [breaches, validate_boolean, List.countP_append, countP_under, countP_under]

theorem breaches_group (o : Connective) (child : Condition) :
    (group o child).breaches rule = childBreach rule child + child.breaches rule := by
  rw [breaches, validate_group, List.countP_append, countP_under, childBreach]
  cases child.isGroup <;> cases rule <;> rfl

/-- A branch breaks no rule that the tree keeps. -/
theorem breaches_branch_le (rule : Rule) {node child : Condition} {b : Branch}
    (hb : node.branch? b = some child) :
    child.breaches rule ≤ node.breaches rule := by
  cases branch?_eq_some_iff.mp hb with
  | comparisonLeft | comparisonRight => rw [breaches_comparison]; omega
  | booleanLeft | booleanRight => rw [breaches_boolean]; omega
  | groupChild => rw [breaches_group]; omega

/-- What stands at a place breaks no rule that the tree keeps. -/
theorem breaches_get?_le (rule : Rule) : ∀ {path : Path} {node n : Condition},
    node.get? path = some n → n.breaches rule ≤ node.breaches rule
  | [], node, n, h => by
    cases (get?_nil node).symm.trans h
    exact Nat.le_refl _
  | b :: path, node, n, h => by
    rw [get?_cons, Option.bind_eq_some_iff] at h
    obtain ⟨child, hb, hchild⟩ := h
    have hbranch := breaches_branch_le rule hb
    have hbelow := breaches_get?_le rule hchild
    omega

theorem validate_eq_nil_iff {c : Condition} : c.validate = [] ↔ ∀ rule, c.breaches rule = 0 := by
  constructor
  · intro h rule
    simp [breaches, h]
  · intro h
    refine List.eq_nil_iff_forall_not_mem.mpr fun v hv => ?_
    have hpos : 0 < c.breaches v.rule := List.countP_pos_iff.mpr ⟨v, hv, by simp⟩
    exact absurd (h v.rule) (by omega)

/-! ### What edits keep -/

@[simp] theorem sideBreach_of_isOperand {side : Condition} (h : side.isOperand) :
    sideBreach rule side = 0 := by
  simp [sideBreach, h]

@[simp] theorem sideBreach_nestedGroup (side : Condition) : sideBreach .nestedGroup side = 0 := by
  simp [sideBreach]

@[simp] theorem childBreach_of_not_isGroup {child : Condition} (h : child.isGroup = false) :
    childBreach rule child = 0 := by
  simp [childBreach, h]

theorem isOperand_of_sideBreach {side : Condition} (h : sideBreach .nonOperand side = 0) :
    side.isOperand := by
  cases hs : side.isOperand with
  | true => rfl
  | false => simp [sideBreach, hs] at h

theorem isOperand_of_branch {o : Comparator} {l r child : Condition} {b : Branch}
    (h : (comparison o l r).breaches .nonOperand = 0)
    (hb : (comparison o l r).branch? b = some child) : child.isOperand := by
  rw [breaches_comparison] at h
  cases branch?_eq_some_iff.mp hb <;> exact isOperand_of_sideBreach (by omega)

/-- A side that stays an operand where it was one breaks the rule no more often. -/
theorem sideBreach_le (rule : Rule) {side new : Condition} (h : side.isOperand → new.isOperand) :
    sideBreach rule new ≤ sideBreach rule side := by
  unfold sideBreach
  cases hs : side.isOperand with
  | true => simp [h hs]
  | false => split_ifs <;> simp_all

@[simp] theorem breaches_of_isOperand {c : Condition} (h : c.isOperand) : c.breaches rule = 0 := by
  cases c <;> simp_all

/-- New rows break no rule. -/
theorem breaches_of_isRow {c : Condition} (h : c.IsRow) : c.breaches rule = 0 := by
  cases c with
  | comparison o l r => simp [breaches_comparison, h.1, h.2]
  | _ => cases h

theorem isGroup_of_isRow {c : Condition} (h : c.IsRow) : c.isGroup = false := by
  cases c with
  | comparison o l r => rfl
  | _ => cases h

/-- Connectives play no part in the rules. -/
@[simp] theorem breaches_align (c : Condition) (o : Connective) :
    (c.align o).breaches rule = c.breaches rule := by
  induction c generalizing o with
  | boolean _ l r ihl ihr => simp only [align, breaches_boolean, ihl, ihr]
  | group _ child ih => simp only [align, breaches_group, childBreach, isGroup_align, ih]
  | _ => rfl

theorem breaches_replaceBranch_le {node child new : Condition} {b : Branch}
    (hb : node.branch? b = some child) (hle : new.breaches rule ≤ child.breaches rule)
    (hop : child.isOperand → new.isOperand) (hg : node.isGroup → new.isGroup = false) :
    (node.replaceBranch b new).breaches rule ≤ node.breaches rule := by
  cases branch?_eq_some_iff.mp hb with
  | groupChild =>
    rw [replaceBranch, breaches_group, breaches_group, childBreach_of_not_isGroup (hg rfl)]
    omega
  | booleanLeft | booleanRight =>
    rw [replaceBranch, breaches_boolean, breaches_boolean]
    omega
  | comparisonLeft | comparisonRight =>
    -- the side is counted at the comparison as well as in itself
    have hside := sideBreach_le rule hop
    rw [replaceBranch, breaches_comparison, breaches_comparison]
    omega

end Condition

open Condition

variable {e : Editor} {intent : Intent} {parent : Option Condition} {node : Condition} {path : Path}
  {new : Option Condition}

theorem SiteEdit.breaches_le (hp : e.defaults.placeholder.IsRow) (rule : Rule)
    (h : SiteEdit e parent intent node new) : ∀ c ∈ new, c.breaches rule ≤ node.breaches rule := by
  rintro c hc
  cases h <;> cases hc
  case addExpression =>
    simp [Editor.addSibling, Condition.addSibling, breaches_of_isRow hp]
  case addGroup =>
    simp [Editor.addGroup, Condition.addGroup, breaches_group, breaches_of_isRow hp,
      isGroup_of_isRow hp]
  case setGroup o o' child => simp [breaches_group, childBreach]
  case setRoot => simp
  case setComparator => simp [breaches_comparison]
  case setValue => simp
  case setReference => simp

theorem Edits.breaches_le (hp : e.defaults.placeholder.IsRow) (rule : Rule)
    (h : Edits e intent parent node path new) : ∀ c ∈ new, c.breaches rule ≤ node.breaches rule := by
  induction h with
  | site h => exact h.breaches_le hp rule
  | within hb h hg ih =>
    rintro c ⟨⟩
    exact breaches_replaceBranch_le hb (ih _ rfl) h.isOperand hg
  | merge h hg ih =>
    rintro c ⟨⟩
    have hle := ih _ rfl
    rw [breaches_group]
    omega
  | closeLeft | closeRight =>
    rintro c ⟨⟩
    rw [breaches_boolean]
    omega
  | vanish => rintro c ⟨⟩

/-- **No edit makes a tree break a rule more often.** -/
theorem breaches_le_of_apply (hp : e.defaults.placeholder.IsRow) {root c : Condition}
    (h : (e.apply root path intent).2 = .ok (some c)) (rule : Rule) :
    c.breaches rule ≤ root.breaches rule :=
  Edits.breaches_le (e := e.observed root) hp rule (apply_eq_ok_iff.mp h) c rfl

/-- A tree that breaks no rule breaks none after any run. -/
theorem validate_run {d : Desk} (hp : d.editor.defaults.placeholder.IsRow)
    (h : ∀ c ∈ d.tree, c.validate = []) (rs : List Request) :
    ∀ c ∈ (d.run rs).tree, c.validate = [] := by
  refine Desk.tree_run (fun e root c path intent hd hroot hc => ?_) h rs
  rw [validate_eq_nil_iff] at hroot ⊢
  intro rule
  have hle := breaches_le_of_apply (hd ▸ hp) hc rule
  have hzero := hroot rule
  omega

/-- **Edits never make a tree less well-formed**: no edit of any tree adds to the violations of a rule, and so no run
that starts from a valid tree comes to one that is not. -/
theorem edits_add_no_violation {e : Editor} (hp : e.defaults.placeholder.IsRow) :
    (∀ (root c : Condition) (path : Path) (intent : Intent),
      (e.apply root path intent).2 = .ok (some c) →
        ∀ rule, c.validate.countP (·.rule = rule) ≤ root.validate.countP (·.rule = rule)) ∧
    ∀ (root : Condition), root.validate = [] →
      ∀ (rs : List Request), ∀ c ∈ (Desk.run ⟨e, some root⟩ rs).tree, c.validate = [] := by
  refine ⟨fun root c path intent h rule => breaches_le_of_apply hp h rule, fun root h rs => ?_⟩
  exact validate_run hp (by rintro c ⟨⟩; exact h) rs

/-- Two new rows in brackets, the first of them in brackets of its own. -/
def Condition.bracketedRows : Condition :=
  group .and (boolean .or (group .and emptyComparison) emptyComparison)

/-- A deletion that lifts a group right below another group merges the two. -/
theorem merging_deletion_adds_no_violation :
    (default : Editor).defaults.placeholder.IsRow ∧
    (Editor.apply default bracketedRows [.child, .right] .delete).2 =
      .ok (some (group .and emptyComparison)) ∧
    (∀ rule, (group .and emptyComparison).validate.countP (·.rule = rule) ≤
      bracketedRows.validate.countP (·.rule = rule)) ∧
    bracketedRows.validate = [] ∧
    (Desk.run ⟨default, some bracketedRows⟩ [⟨[.child, .right], .delete⟩]).tree =
      some (group .and emptyComparison) ∧
    (group .and emptyComparison).validate = [] := by
  have hp : (default : Editor).defaults.placeholder.IsRow := by decide
  have hroot : bracketedRows.validate = [] := rfl
  obtain ⟨hstep, hrun⟩ := edits_add_no_violation hp
  refine ⟨hp, rfl, ?_, hroot, rfl, ?_⟩
  · exact hstep bracketedRows _ [.child, .right] .delete rfl
  · exact hrun bracketedRows hroot [⟨[.child, .right], .delete⟩] _ rfl

end ConditionTree
