import ConditionTree.Proofs.Signs
import ConditionTree.Proofs.Violations

/-!
# Flattened trees

A flattened tree holds no group right inside another one (`breaches_flatten`), and a tree that holds none is not changed
(`flatten_eq_self`). Comparisons stay where they are in the order of the nodes, and the kinds of their sides stay, so
what is wrong with these sides is reported as before (`nonOperandKinds_flatten`).
-/

namespace ConditionTree

/-- The kind of the node that stands where an operand should. -/
def Violation.kind? : Violation → Option NodeKind
  | nestedGroup _ => none
  | nonOperand _ kind => some kind

namespace Condition

variable {c child : Condition} {o : Connective}

/-! ### What is reported of the sides of comparisons -/

/-- The kinds of the nodes that stand in comparisons and are no operands, in the order of the report. -/
def nonOperandKinds (c : Condition) : List NodeKind :=
  c.validate.filterMap Violation.kind?

def sideKinds (side : Condition) : List NodeKind :=
  if side.isOperand then [] else [side.kind]

theorem filterMap_sideViolations (path : Path) (side : Condition) :
    (sideViolations path side).filterMap Violation.kind? = sideKinds side := by
  unfold sideViolations sideKinds
  cases side.isOperand <;> rfl

/-- The place of a node says nothing about its kind. -/
theorem filterMap_under (b : Branch) (c : Condition) :
    (c.validate.map (Violation.under b)).filterMap Violation.kind? = c.nonOperandKinds := by
  have hkind : ∀ v : Violation, (v.under b).kind? = v.kind? := fun v => by cases v <;> rfl
  rw [List.filterMap_map]
  simp only [Function.comp_def, hkind, nonOperandKinds]

theorem nonOperandKinds_comparison (o : Comparator) (l r : Condition) :
    (comparison o l r).nonOperandKinds =
      sideKinds l ++ sideKinds r ++ (l.nonOperandKinds ++ r.nonOperandKinds) := by
  rw [nonOperandKinds, validate_comparison]
  simp only [List.filterMap_append, filterMap_sideViolations, filterMap_under]

theorem nonOperandKinds_boolean (o : Connective) (l r : Condition) :
    (boolean o l r).nonOperandKinds = l.nonOperandKinds ++ r.nonOperandKinds := by
  rw [nonOperandKinds, validate_boolean, List.filterMap_append, filterMap_under, filterMap_under]

theorem nonOperandKinds_group (o : Connective) (child : Condition) :
    (group o child).nonOperandKinds = child.nonOperandKinds := by
  rw [nonOperandKinds, validate_group, List.filterMap_append, filterMap_under]
  split_ifs <;> rfl

/-! ### Groups in groups -/

theorem isGroup_iff_kind : c.isGroup ↔ c.kind = .group := by
  cases c <;> simp [isGroup, kind]

theorem kind_enclose (o : Connective) (child : Condition) : (enclose o child).kind = .group := by
  unfold enclose
  split_ifs with h
  · exact isGroup_iff_kind.mp h
  · rfl

/-- Every node keeps its kind. -/
@[simp] theorem kind_flatten (c : Condition) : c.flatten.kind = c.kind := by
  cases c with
  | group o child => exact kind_enclose o child.flatten
  | _ => rfl

@[simp] theorem isGroup_flatten (c : Condition) : c.flatten.isGroup = c.isGroup := by
  rw [Bool.eq_iff_iff, isGroup_iff_kind, isGroup_iff_kind, kind_flatten]

/-- A group gives way to a group that it holds. -/
theorem flatten_group (o : Connective) (child : Condition) :
    (group o child).flatten = if child.isGroup then child.flatten else group o child.flatten := by
  rw [flatten, enclose, isGroup_flatten]

theorem isOperand_flatten (c : Condition) : c.flatten.isOperand = c.isOperand := by
  rw [isOperand, kind_flatten, isOperand]

theorem sideKinds_flatten (side : Condition) : sideKinds side.flatten = sideKinds side := by
  rw [sideKinds, isOperand_flatten, kind_flatten, sideKinds]

/-- **What is wrong with the sides of comparisons stays wrong, in the same order.** -/
theorem nonOperandKinds_flatten (c : Condition) : c.flatten.nonOperandKinds = c.nonOperandKinds := by
  induction c with
  | number x => rfl
  | reference s => rfl
  | comparison o l r ihl ihr =>
    rw [flatten, nonOperandKinds_comparison, nonOperandKinds_comparison, sideKinds_flatten, sideKinds_flatten, ihl, ihr]
  | boolean o l r ihl ihr => rw [flatten, nonOperandKinds_boolean, nonOperandKinds_boolean, ihl, ihr]
  | group o child ih =>
    rw [flatten_group, nonOperandKinds_group, ← ih]
    split_ifs
    · rfl
    · exact nonOperandKinds_group o child.flatten

/-- **No group is left right inside another one.** -/
theorem breaches_flatten (c : Condition) : c.flatten.breaches .nestedGroup = 0 := by
  induction c with
  | number x => rfl
  | reference s => rfl
  | comparison o l r ihl ihr =>
    rw [flatten, breaches_comparison, sideBreach_nestedGroup, sideBreach_nestedGroup, ihl, ihr]
  | boolean o l r ihl ihr => rw [flatten, breaches_boolean, ihl, ihr]
  | group o child ih =>
    rw [flatten_group]
    split_ifs with hg
    · exact ih
    · rw [breaches_group, childBreach_of_not_isGroup (by simpa using hg), ih]

theorem rule_ne_of_breaches {rule : Violation.Rule} (h : c.breaches rule = 0) : ∀ v ∈ c.validate, v.rule ≠ rule := by
  intro v hv hrule
  have hpos : 0 < c.breaches rule := List.countP_pos_iff.mpr ⟨v, hv, by simpa using hrule⟩
  omega

/-- Without a group right inside another one there is nothing to do. -/
theorem flatten_eq_self (h : c.breaches .nestedGroup = 0) : c.flatten = c := by
  induction c with
  | number x => rfl
  | reference s => rfl
  | comparison o l r ihl ihr =>
    rw [breaches_comparison] at h
    rw [flatten, ihl (by omega), ihr (by omega)]
  | boolean o l r ihl ihr =>
    rw [breaches_boolean] at h
    rw [flatten, ihl (by omega), ihr (by omega)]
  | group o child ih =>
    have hchild : child.isGroup = false := isGroup_child_of_breaches h
    rw [breaches_group] at h
    rw [flatten_group, if_neg (by simp [hchild]), ih (by omega)]

theorem flatten_flatten (c : Condition) : c.flatten.flatten = c.flatten :=
  flatten_eq_self (breaches_flatten c)

/-! ### Numbers in flattened trees -/

theorem allFinite_flatten (h : c.AllFinite) : c.flatten.AllFinite := by
  induction c with
  | number x => exact h
  | reference s => exact h
  | comparison o l r ihl ihr => exact ⟨ihl h.1, ihr h.2⟩
  | boolean o l r ihl ihr => exact ⟨ihl h.1, ihr h.2⟩
  | group o child ih =>
    rw [flatten, enclose]
    split_ifs <;> exact ih h

theorem positiveZeros_enclose (o : Connective) (child : Condition) :
    (enclose o child).positiveZeros = enclose o child.positiveZeros := by
  rw [enclose, enclose, isGroup_positiveZeros]
  split_ifs <;> rfl

theorem positiveZeros_flatten (c : Condition) : c.flatten.positiveZeros = c.positiveZeros.flatten := by
  induction c with
  | number x => rfl
  | reference s => rfl
  | comparison o l r ihl ihr | boolean o l r ihl ihr => rw [flatten, positiveZeros, positiveZeros, flatten, ihl, ihr]
  | group o child ih => rw [flatten, positiveZeros_enclose, positiveZeros, flatten, ih]

/-- No rule is about the signs of zeros. -/
theorem validate_positiveZeros (c : Condition) : c.positiveZeros.validate = c.validate := by
  have hside : ∀ (path : Path) (side : Condition),
      sideViolations path side.positiveZeros = sideViolations path side := fun path side => by
    rw [sideViolations, isOperand_positiveZeros, kind_positiveZeros, sideViolations]
  induction c with
  | number x => rfl
  | reference s => rfl
  | comparison o l r ihl ihr => rw [positiveZeros, validate_comparison, validate_comparison, hside, hside, ihl, ihr]
  | boolean o l r ihl ihr => rw [positiveZeros, validate_boolean, validate_boolean, ihl, ihr]
  | group o child ih => rw [positiveZeros, validate_group, validate_group, isGroup_positiveZeros, ih]

end Condition

end ConditionTree
