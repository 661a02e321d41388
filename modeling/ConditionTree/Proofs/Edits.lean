import ConditionTree.Edit.Editor
import Mathlib.Tactic.Common

/-!
# The rules of an edit

`editAt` as a relation: one rule for what each intent makes of the node it is meant for (`SiteEdit`), and one for
each way in which a node above takes up the change of its branch (`Edits`). A boolean node that loses a side closes
up around the other one, a group goes with its child and gives way to a group that its child became.

`editAt_eq_ok_iff` says that the relation holds exactly of the edits that succeed, so whatever an edit does to a tree
can be shown by induction over the rules, from the node edited up to the root.
-/

namespace ConditionTree

namespace Condition

/-- The nodes right below each kind of node. -/
inductive HasBranch : Condition → Branch → Condition → Prop
  | comparisonLeft (o : Comparator) (l r : Condition) : HasBranch (comparison o l r) .left l
  | comparisonRight (o : Comparator) (l r : Condition) : HasBranch (comparison o l r) .right r
  | booleanLeft (o : Connective) (l r : Condition) : HasBranch (boolean o l r) .left l
  | booleanRight (o : Connective) (l r : Condition) : HasBranch (boolean o l r) .right r
  | groupChild (o : Connective) (child : Condition) : HasBranch (group o child) .child child

theorem branch?_eq_some_iff {node child : Condition} {b : Branch} :
    node.branch? b = some child ↔ HasBranch node b child := by
  constructor
  · intro h
    cases node <;> cases b <;> cases h <;> constructor
  · rintro (_ | _ | _ | _ | _) <;> rfl

end Condition

open Condition

/-- What an intent makes of the node it is meant for, below a parent. -/
inductive SiteEdit (e : Editor) (parent : Option Condition) :
    Intent → Condition → Option Condition → Prop
  | addExpression {node : Condition} (h : node.isOperand = false) :
    SiteEdit e parent .addExpression node (some (e.addSibling parent node))
  | addGroup {node : Condition} (h : node.isOperand = false) :
    SiteEdit e parent .addGroup node (some (e.addGroup parent node))
  | delete {node : Condition} (h : node.isOperand = false) : SiteEdit e parent .delete node none
  | setGroup (o o' : Connective) (child : Condition) :
    SiteEdit e parent (.setConnective o) (group o' child) (some (group o (child.align o)))
  | setRoot (o : Connective) {node : Condition} (hp : parent = none) (h : node.isGroup = false) :
    SiteEdit e parent (.setConnective o) node (some (node.align o))
  | setComparator (o o' : Comparator) (l r : Condition) :
    SiteEdit e parent (.setComparator o) (comparison o' l r) (some (comparison o l r))
  | setValue {x : Double} (y : Double) (h : x.isFinite) :
    SiteEdit e parent (.setValue x) (number y) (some (number x))
  | setReference (s : String) (t : Option String) :
    SiteEdit e parent (.setReference s) (reference t) (some (reference (some s)))

/-- What an intent for the node at a path makes of the node above it, below a parent. -/
inductive Edits (e : Editor) (intent : Intent) :
    Option Condition → Condition → Path → Option Condition → Prop
  | site {parent : Option Condition} {node : Condition} {new : Option Condition}
    (h : SiteEdit e parent intent node new) : Edits e intent parent node [] new
  /-- The branch is replaced, unless a group would come to hold a group. -/
  | within {parent : Option Condition} {node child new : Condition} {b : Branch} {rest : Path}
    (hb : node.branch? b = some child) (h : Edits e intent (some node) child rest (some new))
    (hg : node.isGroup → new.isGroup = false) :
    Edits e intent parent node (b :: rest) (some (node.replaceBranch b new))
  /-- A group gives way to the group that its child became. -/
  | merge {parent : Option Condition} {o : Connective} {child new : Condition} {rest : Path}
    (h : Edits e intent (some (group o child)) child rest (some new)) (hg : new.isGroup) :
    Edits e intent parent (group o child) (.child :: rest) (some new)
  | closeLeft {parent : Option Condition} {o : Connective} {l r : Condition} {rest : Path}
    (h : Edits e intent (some (boolean o l r)) l rest none) :
    Edits e intent parent (boolean o l r) (.left :: rest) (some r)
  | closeRight {parent : Option Condition} {o : Connective} {l r : Condition} {rest : Path}
    (h : Edits e intent (some (boolean o l r)) r rest none) :
    Edits e intent parent (boolean o l r) (.right :: rest) (some l)
  /-- A group goes with its child. -/
  | vanish {parent : Option Condition} {o : Connective} {child : Condition} {rest : Path}
    (h : Edits e intent (some (group o child)) child rest none) :
    Edits e intent parent (group o child) (.child :: rest) none

variable {e : Editor} {intent : Intent} {parent : Option Condition} {node child : Condition}
  {update new : Option Condition} {b : Branch} {path rest : Path}

/-! ### At the node of the edit -/

theorem editNode_eq_ok_iff :
    e.editNode intent parent path node = .ok new ↔ SiteEdit e parent intent node new := by
  constructor
  · intro h
    cases intent with
    | addExpression | addGroup | delete =>
      cases hn : node.isOperand <;> simp [Editor.editNode, hn, Condition.delete] at h
      subst h
      constructor
      exact hn
    | setConnective o =>
      cases node <;>
        simp only [Editor.editNode, setGroupOperator?, Except.ok.injEq, Option.isNone_iff_eq_none] at h
      case group o' child => subst h; exact .setGroup o o' child
      -- every other node takes a connective at the root only
      all_goals
        split_ifs at h with hp
        · cases h; exact .setRoot o hp rfl
    | setComparator o => cases node <;> simp [Editor.editNode] at h; subst h; constructor
    | setValue x =>
      cases node <;> simp only [Editor.editNode, reduceCtorEq] at h
      split at h <;> cases h
      constructor
      assumption
    | setReference s => cases node <;> simp [Editor.editNode] at h; subst h; constructor
  · intro h
    cases h with
    | addExpression h | addGroup h | delete h => simp [Editor.editNode, h, Condition.delete]
    | setGroup => rfl
    | setRoot o hp h => cases node <;> simp_all [Editor.editNode, setGroupOperator?, isGroup]
    | setComparator => rfl
    | setValue y h => simp [Editor.editNode, h]
    | setReference => rfl

/-! ### On the way up -/

/-- A new branch is put into the node, or is what a group gives way to. -/
theorem fold_some (hb : node.branch? b = some child) (c : Condition) :
    node.fold b (some c) =
      .ok (some (if node.isGroup ∧ c.isGroup then c else node.replaceBranch b c)) := by
  cases branch?_eq_some_iff.mp hb with
  | groupChild => cases c <;> rfl
  | _ => rfl

theorem editAt_cons (hb : node.branch? b = some child) :
    e.editAt intent parent path node (b :: rest) =
      (e.editAt intent (some node) (path ++ [b]) child rest).bind fun update =>
        (node.fold b update).mapError .fold := by
  rw [Editor.editAt, hb]
  rfl

theorem exists_branch_of_editAt_cons
    (h : e.editAt intent parent path node (b :: rest) = .ok new) :
    ∃ child, node.branch? b = some child := by
  cases hb : node.branch? b with
  | some child => exact ⟨child, rfl⟩
  | none => rw [Editor.editAt, hb] at h; cases h

/-- One rule of the relation for the change of a branch that is folded in. -/
theorem Edits.of_fold (hb : node.branch? b = some child)
    (h : Edits e intent (some node) child rest update) (hf : node.fold b update = .ok new) :
    Edits e intent parent node (b :: rest) new := by
  cases update with
  | some c =>
    rw [fold_some hb] at hf
    split_ifs at hf with hg
    · cases hf
      cases branch?_eq_some_iff.mp hb with
      | groupChild => exact .merge h hg.2
      | _ => simp at hg
    · cases hf
      exact .within hb h fun hn => by simpa [hn] using hg
  | none =>
    -- a comparison cannot lose a side, so nothing folds there
    cases branch?_eq_some_iff.mp hb with
    | booleanLeft => cases hf; exact .closeLeft h
    | booleanRight => cases hf; exact .closeRight h
    | groupChild => cases hf; exact .vanish h
    | comparisonLeft | comparisonRight => cases hf

/-- **The relation is the edit**: its rules hold exactly where the edit succeeds. -/
theorem editAt_eq_ok_iff {at' : Path} :
    e.editAt intent parent path node at' = .ok new ↔ Edits e intent parent node at' new := by
  constructor
  · intro h
    -- on the branches that remain, below any node: each becomes the parent of the next
    induction at' generalizing parent path node new with
    | nil => exact .site (editNode_eq_ok_iff.mp h)
    | cons b rest ih =>
      obtain ⟨child, hb⟩ := exists_branch_of_editAt_cons h
      rw [editAt_cons hb] at h
      cases hc : e.editAt intent (some node) (path ++ [b]) child rest with
      | error error => rw [hc] at h; cases h
      | ok update =>
        rw [hc] at h
        cases hf : node.fold b update with
        | error error => simp [Except.bind, hf, Except.mapError] at h
        | ok folded =>
          simp only [Except.bind, hf, Except.mapError, Except.ok.injEq] at h
          exact .of_fold hb (ih hc) (h ▸ hf)
  · intro h
    induction h generalizing path with
    | site h => exact editNode_eq_ok_iff.mpr h
    | within hb _ hg ih =>
      rw [editAt_cons hb, ih]
      simp only [Except.bind, fold_some hb]
      rw [if_neg fun hn => by simp [hg hn.1] at hn]
      rfl
    | @merge _ o c _ _ _ hg ih =>
      have hb : (group o c).branch? .child = some c := rfl
      rw [editAt_cons hb, ih]
      simp only [Except.bind, fold_some hb]
      rw [if_pos ⟨rfl, hg⟩]
      rfl
    | closeLeft _ ih | closeRight _ ih | vanish _ ih => rw [editAt_cons rfl, ih]; rfl

/-! ### From the root -/

/-- The editor once its session has seen the root of the tree to edit. -/
def Editor.observed (e : Editor) (root : Condition) : Editor :=
  { e with session := e.session.observe root }

variable {root : Condition}

theorem apply_eq_ok_iff :
    (e.apply root path intent).2 = .ok new ↔ Edits (e.observed root) intent none root path new := by
  rw [show Edits (e.observed root) intent none root path new ↔
    (e.observed root).editAt intent none [] root path = .ok new from editAt_eq_ok_iff.symm]
  simp only [Editor.apply, Editor.observed]
  split <;> simp_all

theorem apply_fst_of_ok (h : (e.apply root path intent).2 = .ok new) :
    (e.apply root path intent).1 =
      { e with session := Editor.remember (e.session.observe root) root path intent } := by
  simp only [Editor.apply] at h ⊢
  split <;> simp_all

theorem apply_fst_of_error {error : EditError} (h : (e.apply root path intent).2 = .error error) :
    (e.apply root path intent).1 = e.observed root := by
  simp only [Editor.apply, Editor.observed] at h ⊢
  split <;> simp_all

/-- An edit below the root leaves the session alone. -/
@[simp] theorem remember_cons (s : Session) (b : Branch) :
    Editor.remember s root (b :: path) intent = s := by
  cases intent <;> simp [Editor.remember]

@[simp] theorem apply_defaults : (e.apply root path intent).1.defaults = e.defaults := by
  cases h : (e.apply root path intent).2 with
  | ok new => rw [apply_fst_of_ok h]
  | error error => rw [apply_fst_of_error h]; rfl

/-- A comparison of two operands, as a new row is. -/
def Condition.IsRow : Condition → Prop
  | comparison _ l r => l.isOperand ∧ r.isOperand
  | _ => False

instance : DecidablePred Condition.IsRow
  | comparison _ l r => inferInstanceAs (Decidable (l.isOperand ∧ r.isOperand))
  | number _ | reference _ | boolean _ _ _ | group _ _ => inferInstanceAs (Decidable False)

/-- An operand stays one, whatever is done to it. -/
theorem Edits.isOperand {c : Condition} (h : Edits e intent parent node path (some c))
    (hn : node.isOperand) : c.isOperand := by
  cases h with
  | site h => cases h <;> simp_all
  | within hb => cases branch?_eq_some_iff.mp hb <;> simp at hn
  | merge | closeLeft | closeRight => simp at hn

end ConditionTree
