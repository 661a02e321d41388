import ConditionTree.Proofs.Flattening
import ConditionTree.Proofs.Walk

/-!
# Brackets in brackets

Of brackets within brackets, flattening keeps the innermost pair (`flatten_nested`), wherever in the tree the chain of
brackets stands (`get?_flatten`). It takes away one node for each nested group that is reported (`nodeCount_flatten`)
and no leaf.

An edit makes the same of a group whose child became one. So a tree comes out flattened if each of its nodes takes up
its branches again, from the leaves up, as it takes up the change of a branch by an edit (`rebuilt_eq`).
-/

namespace ConditionTree

namespace Condition

/-- Brackets within brackets around a node, the outermost first. -/
def nested (os : List Connective) (c : Condition) : Condition :=
  os.foldr group c

/-- Where a place of a tree is once the tree is flattened: the step from a group to a group that it holds is gone. -/
def flatPlace : Condition → Path → Path
  | _, [] => []
  | c, b :: rest =>
    match c.branch? b with
    | some child => if c.isGroup ∧ child.isGroup then child.flatPlace rest else b :: child.flatPlace rest
    | none => b :: rest

/-- A node that takes up changes of its branches, one after the other. -/
def foldAll : List (Branch × Option Condition) → Condition → Except FoldError (Option Condition)
  | [], c => .ok (some c)
  | (b, update) :: rest, c => (c.fold b update).bind fun new => new.elim (.ok none) (foldAll rest)

/-- The tree built anew from its leaves up: each node takes up what its branches became. -/
def rebuilt : Condition → Except FoldError (Option Condition)
  | c@(number _) | c@(reference _) => .ok (some c)
  | c@(comparison _ l r) | c@(boolean _ l r) =>
    l.rebuilt.bind fun left => r.rebuilt.bind fun right => foldAll [(.left, left), (.right, right)] c
  | c@(group _ child) => child.rebuilt.bind fun new => foldAll [(.child, new)] c

variable {c child n node x : Condition} {b : Branch} {o : Connective} {path rest : Path}

/-! ### Chains of brackets -/

/-- **The innermost pair of brackets stays.** -/
theorem flatten_nested (os : List Connective) (o : Connective) (hx : x.isGroup = false) :
    (nested os (group o x)).flatten = group o x.flatten := by
  induction os with
  | nil => exact (flatten_group o x).trans (if_neg (by simp [hx]))
  | cons o' os ih =>
    have hgroup : (nested os (group o x)).isGroup := by
      cases os <;> rfl
    calc (nested (o' :: os) (group o x)).flatten
      _ = (nested os (group o x)).flatten := (flatten_group o' _).trans (if_pos hgroup)
      _ = group o x.flatten := ih

theorem branch?_flatten (hb : node.branch? b = some child) (h : ¬ (node.isGroup ∧ child.isGroup)) :
    node.flatten.branch? b = some child.flatten := by
  cases branch?_eq_some_iff.mp hb with
  | groupChild o =>
    rw [flatten_group, if_neg fun hg => h ⟨rfl, hg⟩]
    rfl
  | _ => rfl

@[simp] theorem flatPlace_nil (c : Condition) : c.flatPlace [] = [] := by
  cases c <;> rfl

theorem flatPlace_cons (hb : node.branch? b = some child) (rest : Path) : node.flatPlace (b :: rest) =
    if node.isGroup ∧ child.isGroup then child.flatPlace rest else b :: child.flatPlace rest := by
  rw [flatPlace, hb]

/-- **What stands in a place is found in the flattened tree, flattened.** -/
theorem get?_flatten : ∀ {path : Path} {c n : Condition}, c.get? path = some n →
    c.flatten.get? (c.flatPlace path) = some n.flatten
  | [], c, n, h => by
    cases (get?_nil c).symm.trans h
    simp
  | b :: rest, c, n, h => by
    obtain ⟨child, hb, hchild⟩ := get?_cons_eq_some_iff.mp h
    rw [flatPlace_cons hb]
    split_ifs with hg
    · cases branch?_eq_some_iff.mp hb with
      | groupChild o =>
        rw [flatten_group, if_pos hg.2]
        exact get?_flatten hchild
      | _ => simp at hg
    · rw [get?_cons, branch?_flatten hb hg]
      exact get?_flatten hchild

/-! ### What is taken away -/

theorem leaves_flatten (c : Condition) : c.flatten.leaves = c.leaves := by
  induction c with
  | number | reference => rfl
  | comparison o l r ihl ihr => rw [flatten, leaves_comparison, leaves_comparison, ihl, ihr]
  | boolean o l r ihl ihr => rw [flatten, leaves_boolean, leaves_boolean, ihl, ihr]
  | group o child ih =>
    rw [flatten_group, leaves_group, ← ih]
    split_ifs
    · rfl
    · exact leaves_group o child.flatten

/-- **One node goes for each nested group.** -/
theorem nodeCount_flatten (c : Condition) :
    c.flatten.nodeCount + c.breaches .nestedGroup = c.nodeCount := by
  induction c with
  | number | reference => rfl
  | comparison o l r ihl ihr =>
    rw [flatten, nodeCount_comparison, nodeCount_comparison, breaches_comparison, sideBreach_nestedGroup,
      sideBreach_nestedGroup]
    omega
  | boolean o l r ihl ihr =>
    rw [flatten, nodeCount_boolean, nodeCount_boolean, breaches_boolean]
    omega
  | group o child ih =>
    rw [flatten_group, nodeCount_group, breaches_group, childBreach]
    cases hg : child.isGroup with
    | true =>
      rw [if_pos rfl, if_pos ⟨rfl, rfl⟩]
      omega
    | false =>
      rw [if_neg (by simp), if_neg (by simp), nodeCount_group]
      omega

theorem flatten_eq_self_iff : c.flatten = c ↔ c.breaches .nestedGroup = 0 :=
  ⟨fun h => h ▸ breaches_flatten c, flatten_eq_self⟩

/-! ### The same by edits -/

/-- A group that takes up its flattened child becomes what flattening makes of it. -/
theorem fold_flatten (o : Connective) (child : Condition) :
    (group o child).fold .child (some child.flatten) = .ok (some (group o child).flatten) := by
  rw [fold_some rfl, flatten_group, isGroup_flatten]
  simp [replaceBranch]

/-- **A tree that takes up all its branches again is flattened.** -/
theorem rebuilt_eq (c : Condition) : c.rebuilt = .ok (some c.flatten) := by
  induction c with
  | number | reference => rfl
  | comparison o l r ihl ihr | boolean o l r ihl ihr =>
    rw [rebuilt, ihl, ihr]
    rfl
  | group o child ih =>
    rw [rebuilt, ih]
    simp only [Except.bind, foldAll, fold_flatten, Option.elim_some]

end Condition

open Condition

/-- **Flattening mends nested groups and nothing else.** A flattened tree has none, has the same kind at the root, the
same leaves in order and the same reports of the sides of comparisons, and has one node less for each nested group. A
chain of brackets right within brackets, wherever it stands, has become the innermost pair. Flattening changes nothing
exactly if there is no nested group, so flattening twice is flattening once. The rule of edits for groups whose child
became a group gives the same tree, when each node takes up its branches again from the leaves up. -/
theorem flattening_keeps_innermost_brackets (c : Condition) :
    c.flatten.breaches .nestedGroup = 0 ∧
    c.flatten.nonOperandKinds = c.nonOperandKinds ∧
    c.flatten.kind = c.kind ∧
    c.flatten.leaves = c.leaves ∧
    c.flatten.nodeCount + c.breaches .nestedGroup = c.nodeCount ∧
    (∀ (path : Path) (os : List Connective) (o : Connective) (x : Condition), x.isGroup = false →
      c.get? path = some (nested os (group o x)) → c.flatten.get? (c.flatPlace path) = some (group o x.flatten)) ∧
    (c.flatten = c ↔ c.breaches .nestedGroup = 0) ∧
    c.flatten.flatten = c.flatten ∧
    c.rebuilt = .ok (some c.flatten) := by
  refine ⟨breaches_flatten c, nonOperandKinds_flatten c, kind_flatten c, leaves_flatten c, nodeCount_flatten c, ?_,
    flatten_eq_self_iff, flatten_flatten c, rebuilt_eq c⟩
  intro path os o x hx hchain
  rw [get?_flatten hchain, flatten_nested os o hx]

/-- Three pairs of brackets around a row, beside a comparison with two pairs around a side. -/
def Condition.bracketChains : Condition :=
  boolean .and (nested [.and, .or] (group .and emptyComparison))
    (comparison .less (nested [.or] (group .and (number .zero))) (reference none))

/-- Chains of brackets are taken down to the innermost pair inside of a comparison as well. -/
theorem chains_in_comparisons_flattened :
    bracketChains.breaches .nestedGroup = 3 ∧
    bracketChains.flatten.nodeCount + 3 = bracketChains.nodeCount ∧
    emptyComparison.isGroup = false ∧
    bracketChains.get? [.left] = some (nested [.and, .or] (group .and emptyComparison)) ∧
    bracketChains.flatten.get? [.left] = some (group .and emptyComparison) ∧
    (number .zero).isGroup = false ∧
    bracketChains.get? [.right, .left] = some (nested [.or] (group .and (number .zero))) ∧
    bracketChains.flatten.get? [.right, .left] = some (group .and (number .zero)) := by
  obtain ⟨-, -, -, -, hcount, hchain, -⟩ := flattening_keeps_innermost_brackets bracketChains
  refine ⟨rfl, hcount, rfl, rfl, ?_, rfl, rfl, ?_⟩
  · exact hchain [.left] [.and, .or] .and emptyComparison rfl rfl
  · exact hchain [.right, .left] [.or] .and (number .zero) rfl rfl

end ConditionTree
