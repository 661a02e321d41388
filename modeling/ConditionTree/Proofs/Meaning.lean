import ConditionTree.Proofs.Enclosing

/-!
# What a tree says

Under a valuation of its atoms, which are the comparisons and the operands that stand for themselves, a tree is true or
false: connectives join the values of both sides, and brackets have the value of what they hold.

`valueTaking` is the value of a tree in which the node at a place is taken as true or false. A node that becomes another
one on the way up passes on nothing but its value (`value_foldAlong`), whichever brackets go with it. So a deletion means
to take the deleted node as true where it was joined by `&&` and as false where it was joined by `||`
(`deletion_removes_one_operand`).
-/

namespace ConditionTree

open Condition

namespace Connective

/-- The truth value of two conditions joined. -/
def join : Connective → Bool → Bool → Bool
  | and, x, y => x && y
  | or, x, y => x || y

/-- The truth value that says nothing where it is joined to another. -/
def neutral : Connective → Bool
  | and => true
  | or => false

@[simp] theorem join_neutral_left (o : Connective) (x : Bool) : o.join o.neutral x = x := by
  cases o <;> rfl

@[simp] theorem join_neutral_right (o : Connective) (x : Bool) : o.join x o.neutral = x := by
  cases o <;> cases x <;> rfl

end Connective

namespace Condition

/-- The truth value of a tree under a valuation of its atoms. -/
def value (v : Condition → Bool) : Condition → Bool
  | boolean o l r => o.join (l.value v) (r.value v)
  | group _ child => child.value v
  | atom => v atom

/-- The truth value of a tree with the node at a path taken as true or false. Comparisons are atoms, so that nothing
inside of one is taken for anything. -/
def valueTaking (v : Condition → Bool) (x : Bool) : Condition → Path → Bool
  | _, [] => x
  | boolean o l r, .left :: rest => o.join (l.valueTaking v x rest) (r.value v)
  | boolean o l r, .right :: rest => o.join (l.value v) (r.valueTaking v x rest)
  | group _ child, .child :: rest => child.valueTaking v x rest
  | c, _ => c.value v

variable {v : Condition → Bool} {x : Bool} {node child c t : Condition} {b : Branch} {path rest : Path}

@[simp] theorem valueTaking_nil (v : Condition → Bool) (x : Bool) (c : Condition) :
    c.valueTaking v x [] = x := by
  cases c <;> rfl

/-! ### One branch down -/

/-- One branch down, the value taken is that of the branch. -/
theorem valueTaking_cons (hb : node.branch? b = some child) (hk : node.kind ≠ .comparison) (rest : Path) :
    node.valueTaking v x (b :: rest) = node.valueTaking v (child.valueTaking v x rest) [b] := by
  cases branch?_eq_some_iff.mp hb with
  | comparisonLeft | comparisonRight => exact absurd rfl hk
  | booleanLeft | booleanRight | groupChild => simp [valueTaking]

/-- A branch is worth its own value. -/
theorem valueTaking_branch (hb : node.branch? b = some child) (hk : node.kind ≠ .comparison) :
    node.valueTaking v (child.value v) [b] = node.value v := by
  cases branch?_eq_some_iff.mp hb with
  | comparisonLeft | comparisonRight => exact absurd rfl hk
  | booleanLeft | booleanRight | groupChild => simp [valueTaking, value]

/-- **A node that takes up a new branch is worth what the branch makes of it**, also if it is a group that gives way to
the branch. -/
theorem value_fold (hb : node.branch? b = some child) (hk : node.kind ≠ .comparison)
    (h : node.fold b (some c) = .ok (some t)) : t.value v = node.valueTaking v (c.value v) [b] := by
  rw [fold_some hb] at h
  cases branch?_eq_some_iff.mp hb with
  | comparisonLeft | comparisonRight => exact absurd rfl hk
  | booleanLeft | booleanRight =>
    cases h
    simp [replaceBranch, valueTaking, value]
  | groupChild =>
    cases h
    split_ifs <;> simp [replaceBranch, valueTaking, value]

/-- A boolean node that closes up is worth what it was with the neutral value on the side that is gone. -/
theorem value_fold_none {o : Connective} {l r s : Condition}
    (h : (boolean o l r).fold b none = .ok (some s)) :
    s.value v = (boolean o l r).valueTaking v o.neutral [b] := by
  cases b <;> cases h <;> simp [valueTaking]

/-! ### Along a path -/

theorem valueTaking_append (q : Path) : ∀ {p : Path} {root a : Condition}, root.get? p = some a →
    root.OutsideComparisons p →
      root.valueTaking v x (p ++ q) = root.valueTaking v (a.valueTaking v x q) p
  | [], root, a, h, _ => by
    cases (get?_nil root).symm.trans h
    rw [List.nil_append, valueTaking_nil]
  | b :: p, root, a, h, hout => by
    obtain ⟨child, hb, hchild⟩ := get?_cons_eq_some_iff.mp h
    obtain ⟨hk, hout⟩ := (outsideComparisons_cons hb).mp hout
    rw [List.cons_append, valueTaking_cons hb hk, valueTaking_append q hchild hout, ← valueTaking_cons hb hk]

/-- A node is worth its own value at its place. -/
theorem valueTaking_value : ∀ {path : Path} {root n : Condition}, root.get? path = some n →
    root.OutsideComparisons path → root.valueTaking v (n.value v) path = root.value v
  | [], root, n, h, _ => by
    cases (get?_nil root).symm.trans h
    exact valueTaking_nil v _ _
  | b :: rest, root, n, h, hout => by
    obtain ⟨child, hb, hchild⟩ := get?_cons_eq_some_iff.mp h
    obtain ⟨hk, hout⟩ := (outsideComparisons_cons hb).mp hout
    rw [valueTaking_cons hb hk, valueTaking_value hchild hout, valueTaking_branch hb hk]

/-- Brackets have the value of what they hold. -/
theorem valueTaking_of_groups : ∀ {path : Path} {root n : Condition}, root.get? path = some n →
    root.nonGroupAbove? path = none → root.valueTaking v x path = x
  | [], root, n, _, _ => valueTaking_nil v x root
  | b :: rest, root, n, h, hA => by
    obtain ⟨child, hb, hchild⟩ := get?_cons_eq_some_iff.mp h
    obtain ⟨hg, hrest⟩ := (nonGroupAbove?_cons_eq_none_iff hb).mp hA
    cases branch?_eq_some_iff.mp hb with
    | groupChild =>
      show child.valueTaking v x rest = x
      exact valueTaking_of_groups hchild hrest
    | _ => simp at hg

/-- **A node passes on its value alone** on the way up. -/
theorem value_foldAlong : ∀ {path : Path} {root n t : Condition}, root.get? path = some n →
    root.OutsideComparisons path → root.foldAlong path (some c) = .ok (some t) →
      t.value v = root.valueTaking v (c.value v) path
  | [], root, n, t, _, _, h => by
    cases (foldAlong_nil root (some c)).symm.trans h
    exact (valueTaking_nil v _ root).symm
  | b :: rest, root, n, t, hn, hout, h => by
    obtain ⟨child, hb, hchild⟩ := get?_cons_eq_some_iff.mp hn
    obtain ⟨hk, hout⟩ := (outsideComparisons_cons hb).mp hout
    obtain ⟨t', ht'⟩ := exists_foldAlong_some c hchild
    rw [foldAlong_cons hb, ht'] at h
    rw [value_fold hb hk h, value_foldAlong hchild hout ht', ← valueTaking_cons hb hk]

end Condition

/-- **A deletion removes one operand.** Of a node with no comparison above it, the deletion succeeds, and leaves nothing
exactly if no boolean node is above. Otherwise the tree says what it said before, but for the deleted node: this is
taken as true if the nearest boolean node above is a conjunction, and as false if it is a disjunction. -/
theorem deletion_removes_one_operand {e : Editor} {root n : Condition} {path : Path}
    (hn : root.get? path = some n) (hk : n.isOperand = false) (hout : root.OutsideComparisons path) :
    ∃ new, (e.apply root path .delete).2 = .ok new ∧ (new = none ↔ root.booleanAbove? path = none) ∧
      ∀ t ∈ new, ∃ A o l r, root.booleanAbove? path = some A ∧ root.get? A = some (boolean o l r) ∧
        ∀ v, root.value v = root.valueTaking v (n.value v) path ∧
          t.value v = root.valueTaking v (decide (o = .and)) path := by
  rw [apply_delete hn hk]
  cases hA : root.booleanAbove? path with
  | none =>
    have hgroups : root.nonGroupAbove? path = none := by
      rwa [← booleanAbove?_eq_nonGroupAbove? hn hout]
    rw [foldAlong_none_of_groups hn hgroups]
    exact ⟨none, rfl, by simp, nofun⟩
  | some A =>
    obtain ⟨o, l, r, b, child, rest, s, rfl, ha, hb, hchild, hgroups, hfold⟩ :=
      fold_none_of_booleanAbove? hn hout hA
    obtain ⟨t, ht⟩ := exists_foldAlong_some s ha
    rw [foldAlong_none_append ha hb hchild hgroups, hfold, Except.bind, ht]
    refine ⟨some t, rfl, by simp, ?_⟩
    rintro t ⟨⟩
    refine ⟨A, o, l, r, rfl, ha, fun v => ⟨(valueTaking_value hn hout).symm, ?_⟩⟩
    have hneutral : decide (o = .and) = o.neutral := by cases o <;> rfl
    calc t.value v = root.valueTaking v (s.value v) A := value_foldAlong ha hout.of_append ht
      _ = root.valueTaking v ((boolean o l r).valueTaking v o.neutral [b]) A := by rw [value_fold_none hfold]
      _ = root.valueTaking v ((boolean o l r).valueTaking v o.neutral (b :: rest)) A := by
        rw [valueTaking_cons hb (fun h => nomatch h) rest, valueTaking_of_groups hchild hgroups]
      _ = root.valueTaking v (decide (o = .and)) (A ++ b :: rest) := by
        rw [hneutral, valueTaking_append _ ha hout.of_append]

/-- A series above zero. -/
def Condition.positive (series : String) : Condition :=
  comparison .greater (reference (some series)) (number .zero)

/-- A row and two more in brackets within brackets, the first of these in brackets of its own. -/
def Condition.twiceBracketed : Condition :=
  boolean .and (positive "a") (group .and (group .or (boolean .or (group .and (positive "b")) (positive "c"))))

/-- A deletion in a disjunction takes the row as false, although the brackets that stay were within brackets of a
conjunction. -/
theorem deletion_in_disjunction_takes_false :
    twiceBracketed.get? [.right, .child, .child, .left] = some (group .and (positive "b")) ∧
    (group .and (positive "b")).isOperand = false ∧
    twiceBracketed.OutsideComparisons [.right, .child, .child, .left] ∧
    (Editor.apply default twiceBracketed [.right, .child, .child, .left] .delete).2 =
      .ok (some (boolean .and (positive "a") (group .or (positive "c")))) ∧
    ∀ v, (boolean .and (positive "a") (group .or (positive "c"))).value v =
      (v (positive "a") && (false || v (positive "c"))) := by
  have hn : twiceBracketed.get? [.right, .child, .child, .left] = some (group .and (positive "b")) := rfl
  have hout : twiceBracketed.OutsideComparisons [.right, .child, .child, .left] := by decide
  have happly : (Editor.apply default twiceBracketed [.right, .child, .child, .left] .delete).2 =
    .ok (some (boolean .and (positive "a") (group .or (positive "c")))) := rfl
  refine ⟨hn, rfl, hout, happly, fun v => ?_⟩
  obtain ⟨new, hnew, -, hvalue⟩ := deletion_removes_one_operand (e := default) hn rfl hout
  cases happly.symm.trans hnew
  obtain ⟨A, o, l, r, hA, ha, hv⟩ := hvalue _ rfl
  cases hA
  cases ha
  exact (hv v).2

end ConditionTree
