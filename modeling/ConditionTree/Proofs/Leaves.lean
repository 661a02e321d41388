import ConditionTree.Proofs.Ascent

/-!
# Leaves in order

The numbers and references of a tree, read from left to right, are what an edit has to keep: `leaves`. A place cuts them
into those before it, those in it and those after it (`leaves_eq_append`), and an edit at the place touches the middle
part alone, whatever becomes of the nodes above: brackets that go, a boolean node that closes up and a group that gives
way to another all keep their other leaves, each in its order (`leaves_fold`, `leaves_foldAlong`).

This holds of every tree, also of one with nested groups or with comparisons between other things than operands
(`edit_keeps_leaves_outside`).
-/

namespace ConditionTree

open Condition

/-- The paths part at a node where the first goes left and the second right. -/
def Path.isBefore : Path → Path → Bool
  | .left :: _, .right :: _ => true
  | b :: p, b' :: q => b == b' && isBefore p q
  | _, _ => false

@[simp] theorem Path.isBefore_nil (p : Path) : p.isBefore [] = false := by
  cases p with
  | nil => rfl
  | cons b p => cases b <;> rfl

@[simp] theorem Path.nil_isBefore (p : Path) : Path.isBefore [] p = false := rfl

@[simp] theorem Path.isBefore_cons_self (b : Branch) (p q : Path) :
    Path.isBefore (b :: p) (b :: q) = p.isBefore q := by
  cases b <;> rfl

@[simp] theorem Path.left_isBefore_right (p q : Path) : Path.isBefore (.left :: p) (.right :: q) = true := rfl

@[simp] theorem Path.right_isBefore_left (p q : Path) : Path.isBefore (.right :: p) (.left :: q) = false := rfl

namespace Condition

/-- The numbers and references at the paths of a set, from left to right. -/
def leavesAt (c : Condition) (paths : Path → Bool) : List Condition :=
  (c.walk.filter fun (p, node) => node.isOperand && paths p).map Prod.snd

/-- The numbers and references of a tree from left to right. -/
def leaves (c : Condition) : List Condition :=
  c.leavesAt fun _ => true

/-- The leaves on the left of a place. -/
def leavesBefore (c : Condition) (place : Path) : List Condition :=
  c.leavesAt fun p => p.isBefore place

/-- The leaves on the right of a place. -/
def leavesAfter (c : Condition) (place : Path) : List Condition :=
  c.leavesAt fun p => place.isBefore p

variable {paths : Path → Bool} {node child n : Condition} {b : Branch} {path rest : Path}
  {update new : Option Condition}

/-! ### Leaves of each kind of node -/

/-- A leaf under a branch is at the path that the branch begins. -/
theorem leavesAt_under (b : Branch) (c : Condition) (paths : Path → Bool) :
    ((under b c.walk).filter fun (p, node) => node.isOperand && paths p).map Prod.snd =
      c.leavesAt fun p => paths (b :: p) := by
  rw [under, List.filter_map, List.map_map]
  rfl

theorem leavesAt_comparison (o : Comparator) (l r : Condition) : (comparison o l r).leavesAt paths =
    l.leavesAt (fun p => paths (.left :: p)) ++ r.leavesAt fun p => paths (.right :: p) := by
  rw [← leavesAt_under, ← leavesAt_under, ← List.map_append, ← List.filter_append]
  rfl

theorem leavesAt_boolean (o : Connective) (l r : Condition) : (boolean o l r).leavesAt paths =
    l.leavesAt (fun p => paths (.left :: p)) ++ r.leavesAt fun p => paths (.right :: p) := by
  rw [← leavesAt_under, ← leavesAt_under, ← List.map_append, ← List.filter_append]
  rfl

theorem leavesAt_group (o : Connective) (c : Condition) :
    (group o c).leavesAt paths = c.leavesAt fun p => paths (.child :: p) := by
  rw [← leavesAt_under]
  rfl

@[simp] theorem leavesAt_false (c : Condition) : (c.leavesAt fun _ => false) = [] := by
  simp [leavesAt]

@[simp] theorem leaves_comparison (o : Comparator) (l r : Condition) :
    (comparison o l r).leaves = l.leaves ++ r.leaves := leavesAt_comparison o l r

@[simp] theorem leaves_boolean (o : Connective) (l r : Condition) :
    (boolean o l r).leaves = l.leaves ++ r.leaves := leavesAt_boolean o l r

@[simp] theorem leaves_group (o : Connective) (c : Condition) : (group o c).leaves = c.leaves :=
  leavesAt_group o c

/-- There is no tree without leaves. -/
theorem leaves_ne_nil (c : Condition) : c.leaves ≠ [] := by
  induction c with
  | number | reference => exact List.cons_ne_nil _ _
  | comparison _ l r ihl | boolean _ l r ihl => simp [ihl]
  | group _ c ih => rwa [leaves_group]

/-- Connectives are no leaves. -/
@[simp] theorem leaves_align (c : Condition) (o : Connective) : (c.align o).leaves = c.leaves := by
  induction c generalizing o with
  | boolean _ l r ihl ihr => rw [align, leaves_boolean, leaves_boolean, ihl, ihr]
  | group _ c ih => rw [align, leaves_group, leaves_group, ih]
  | _ => rfl

/-! ### Leaves on both sides of a place -/

@[simp] theorem leavesBefore_nil (c : Condition) : c.leavesBefore [] = [] := by
  simp [leavesBefore]

@[simp] theorem leavesAfter_nil (c : Condition) : c.leavesAfter [] = [] := by
  simp [leavesAfter]

/-- One branch down, the leaves before a place are those before the branch and those of the branch. -/
theorem leavesBefore_cons (hb : node.branch? b = some child) (rest : Path) :
    node.leavesBefore (b :: rest) = node.leavesBefore [b] ++ child.leavesBefore rest := by
  cases branch?_eq_some_iff.mp hb <;>
    simp [leavesBefore, leavesAt_comparison, leavesAt_boolean, leavesAt_group]

/-- One branch down, the leaves after a place are those of the branch and those after the branch. -/
theorem leavesAfter_cons (hb : node.branch? b = some child) (rest : Path) :
    node.leavesAfter (b :: rest) = child.leavesAfter rest ++ node.leavesAfter [b] := by
  cases branch?_eq_some_iff.mp hb <;>
    simp [leavesAfter, leavesAt_comparison, leavesAt_boolean, leavesAt_group]

theorem leaves_branch (hb : node.branch? b = some child) :
    node.leaves = node.leavesBefore [b] ++ child.leaves ++ node.leavesAfter [b] := by
  cases branch?_eq_some_iff.mp hb <;>
    simp [leavesBefore, leavesAfter, leaves, leavesAt_comparison, leavesAt_boolean, leavesAt_group]

/-- A branch that is put in brings its leaves to where those of the old one were. -/
theorem leaves_replaceBranch (hb : node.branch? b = some child) (c : Condition) :
    (node.replaceBranch b c).leaves = node.leavesBefore [b] ++ c.leaves ++ node.leavesAfter [b] := by
  cases branch?_eq_some_iff.mp hb <;>
    simp [replaceBranch, leavesBefore, leavesAfter, leaves, leavesAt_comparison, leavesAt_boolean, leavesAt_group]

/-- **A place cuts the leaves of a tree in three.** -/
theorem leaves_eq_append : ∀ {path : Path} {root n : Condition}, root.get? path = some n →
    root.leaves = root.leavesBefore path ++ n.leaves ++ root.leavesAfter path
  | [], root, n, h => by
    cases (get?_nil root).symm.trans h
    simp
  | b :: rest, root, n, h => by
    obtain ⟨child, hb, hchild⟩ := get?_cons_eq_some_iff.mp h
    rw [leaves_branch hb, leaves_eq_append hchild, leavesBefore_cons hb rest, leavesAfter_cons hb rest]
    simp only [List.append_assoc]

/-! ### What edits keep -/

/-- **A node that takes up the change of a branch keeps its other leaves**, be it that the branch is put in or gone. -/
theorem leaves_fold (hb : node.branch? b = some child) (h : node.fold b update = .ok new) :
    new.elim [] leaves = node.leavesBefore [b] ++ update.elim [] leaves ++ node.leavesAfter [b] := by
  cases update with
  | some c =>
    rw [fold_some hb] at h
    split_ifs at h with hg
    · -- a group that gives way has no leaves but those of its child
      cases h
      cases branch?_eq_some_iff.mp hb with
      | groupChild => simp [leavesBefore, leavesAfter, leavesAt_group]
      | _ => simp at hg
    · cases h
      exact leaves_replaceBranch hb c
  | none =>
    cases branch?_eq_some_iff.mp hb with
    | comparisonLeft | comparisonRight => cases h
    | booleanLeft o _ r =>
      cases h
      simp [branch?, leavesBefore, leavesAfter, leaves, leavesAt_boolean]
    | booleanRight o l _ =>
      cases h
      simp [branch?, leavesBefore, leavesAfter, leaves, leavesAt_boolean]
    | groupChild =>
      cases h
      simp [leavesBefore, leavesAfter, leavesAt_group]

/-- On the whole way up, the leaves beside the place stay. -/
theorem leaves_foldAlong : ∀ {path : Path} {root n : Condition} {new : Option Condition},
    root.get? path = some n → root.foldAlong path update = .ok new →
      new.elim [] leaves = root.leavesBefore path ++ update.elim [] leaves ++ root.leavesAfter path
  | [], root, n, new, _, h => by
    cases (foldAlong_nil root update).symm.trans h
    simp
  | b :: rest, root, n, new, hn, h => by
    obtain ⟨child, hb, hchild⟩ := get?_cons_eq_some_iff.mp hn
    rw [foldAlong_cons hb] at h
    cases hu : child.foldAlong rest update with
    | error error => rw [hu] at h; cases h
    | ok folded =>
      rw [hu] at h
      rw [leaves_fold hb h, leaves_foldAlong hchild hu, leavesBefore_cons hb rest, leavesAfter_cons hb rest]
      simp only [List.append_assoc]

end Condition

/-- What an intent makes of the leaves of its node. -/
def Intent.TurnsLeaves (e : Editor) (old new : List Condition) : Intent → Prop
  | addExpression | addGroup => new = old ++ e.defaults.placeholder.leaves
  | delete => new = []
  | setConnective _ | setComparator _ => new = old
  | setValue x => ∃ y, old = [number y] ∧ new = [number x]
  | setReference s => ∃ t, old = [reference t] ∧ new = [reference (some s)]

variable {e : Editor} {intent : Intent} {parent : Option Condition} {root node : Condition} {path : Path}
  {new : Option Condition}

theorem SiteEdit.turnsLeaves (h : SiteEdit e parent intent node new) :
    intent.TurnsLeaves e node.leaves (new.elim [] leaves) := by
  cases h with
  | addExpression => exact leaves_boolean _ _ _
  | addGroup => exact (leaves_boolean _ _ _).trans (by rw [leaves_group])
  | delete => rfl
  | setGroup o o' child =>
    show (group o (child.align o)).leaves = (group o' child).leaves
    rw [leaves_group, leaves_align, leaves_group]
  | setRoot o => exact leaves_align _ o
  | setComparator o o' l r => exact (leaves_comparison o l r).trans (leaves_comparison o' l r).symm
  | setValue y => exact ⟨y, rfl, rfl⟩
  | setReference s t => exact ⟨t, rfl, rfl⟩

/-- **No leaf is lost, doubled or moved by an edit.** On every tree, the leaves before and after the node stay as they
are, and those of the node are followed by the placeholder's, gone, or the same but for a number or a reference that
was set. Nothing is left of the tree exactly if no leaf is. -/
theorem edit_keeps_leaves_outside (h : (e.apply root path intent).2 = .ok new) :
    ∃ n block, root.get? path = some n ∧
      root.leaves = root.leavesBefore path ++ n.leaves ++ root.leavesAfter path ∧
      new.elim [] leaves = root.leavesBefore path ++ block ++ root.leavesAfter path ∧
      intent.TurnsLeaves e n.leaves block ∧
      (new = none ↔ root.leavesBefore path ++ block ++ root.leavesAfter path = []) := by
  obtain ⟨n, update, hn, hsite, hup⟩ := exists_site_of_apply h
  have hleaves := leaves_foldAlong hn hup
  refine ⟨n, update.elim [] leaves, hn, leaves_eq_append hn, hleaves, hsite.turnsLeaves, ?_⟩
  rw [← hleaves]
  cases new with
  | none => exact ⟨fun _ => rfl, fun _ => rfl⟩
  | some c => exact ⟨fun hnone => (nomatch hnone), fun hnil => absurd hnil (leaves_ne_nil c)⟩

/-- Two rows in brackets within brackets, the second of them in brackets of its own. -/
def Condition.nestedRows : Condition :=
  group .and (group .or (boolean .or emptyComparison
    (group .and (comparison .less (reference (some "b")) (number .zero)))))

/-- A deletion that leaves one pair of brackets out of three takes but the leaves of the deleted row. -/
theorem deletion_in_nested_groups_keeps_leaves :
    (Editor.apply default nestedRows [.child, .child, .left] .delete).2 =
      .ok (some (group .and (comparison .less (reference (some "b")) (number .zero)))) ∧
    nestedRows.leavesBefore [.child, .child, .left] = [] ∧
    nestedRows.leavesAfter [.child, .child, .left] = [reference (some "b"), number .zero] ∧
    nestedRows.leaves = [reference none, number .zero, reference (some "b"), number .zero] ∧
    (group .and (comparison .less (reference (some "b")) (number .zero))).leaves =
      [reference (some "b"), number .zero] := by
  have happly : (Editor.apply default nestedRows [.child, .child, .left] .delete).2 =
    .ok (some (group .and (comparison .less (reference (some "b")) (number .zero)))) := rfl
  obtain ⟨n, block, hn, hroot, hleaves, hturns, -⟩ := edit_keeps_leaves_outside happly
  cases hn
  cases hturns
  exact ⟨happly, rfl, rfl, hroot, hleaves⟩

end ConditionTree
