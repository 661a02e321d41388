import ConditionTree.Proofs.Locality

/-!
# Additions undone

What an addition puts in can be deleted again: the new boolean node closes up around the node that was there before,
which goes back into its place (`apply_delete_of_added`). On the way up a tree does not remember what stood in the place
before (`foldAlong_replaceAt`), so it comes out as it was.

The session stays as the addition left it, also where the addition made the root that the deletion meets
(`deletion_undoes_addition`).
-/

namespace ConditionTree

open Condition

namespace Condition

variable {root node child c m n q : Condition} {b : Branch} {path rest : Path} {o : Connective}

/-- A node that takes up a branch does not remember the branch that was there. -/
theorem fold_replaceBranch (hb : node.branch? b = some child) (c : Condition) (update : Option Condition) :
    (node.replaceBranch b c).fold b update = node.fold b update := by
  cases update with
  | some new =>
    have hb' := branch?_replaceBranch_self hb c
    rw [fold_some hb, fold_some hb', isGroup_replaceBranch, replaceBranch_replaceBranch]
  | none => cases branch?_eq_some_iff.mp hb <;> rfl

theorem foldAlong_replaceAt (c : Condition) (update : Option Condition) : ∀ {path : Path} {root n : Condition},
    root.get? path = some n → (root.replaceAt path c).foldAlong path update = root.foldAlong path update
  | [], root, n, _ => by rw [foldAlong_nil, foldAlong_nil]
  | b :: rest, root, n, h => by
    obtain ⟨child, hb, hchild⟩ := get?_cons_eq_some_iff.mp h
    have hb' := branch?_replaceBranch_self hb (child.replaceAt rest c)
    rw [replaceAt_cons hb, foldAlong_cons hb', foldAlong_cons hb, foldAlong_replaceAt c update hchild]
    simp only [fold_replaceBranch hb]

/-- What was joined to a node on its right goes, and the tree is what it was. -/
theorem foldAlong_none_of_joined (hg : root.breaches .nestedGroup = 0) (hn : root.get? path = some n)
    (o : Connective) (hm : q.get? rest = some m) (hgroups : q.nonGroupAbove? rest = none) :
    (root.replaceAt path (boolean o n q)).foldAlong (path ++ .right :: rest) none = .ok (some root) := by
  have hjoined : (root.replaceAt path (boolean o n q)).get? path = some (boolean o n q) := by
    simpa using get?_replaceAt_append [] hn
  calc (root.replaceAt path (boolean o n q)).foldAlong (path ++ .right :: rest) none
    _ = (root.replaceAt path (boolean o n q)).foldAlong path (some n) :=
      foldAlong_none_append hjoined rfl hm hgroups
    _ = root.foldAlong path (some n) := foldAlong_replaceAt _ _ hn
    _ = .ok (some (root.replaceAt path n)) :=
      foldAlong_some hg hn fun hgroup a ha => isGroup_parent_of_breaches hg hn hgroup ha
    _ = .ok (some root) := by rw [replaceAt_self hn]

end Condition

/-- What an addition puts on the right of its node, if it joins with a connective. -/
def Intent.addition? (e : Editor) (o : Connective) : Intent → Option Condition
  | addExpression => some e.defaults.placeholder
  | addGroup => some (group o.complement e.defaults.placeholder)
  | _ => none

variable {e : Editor} {intent : Intent} {root n m q : Condition} {path rest : Path}

/-- An addition joins its node with what it adds. -/
theorem apply_of_addition (hg : root.breaches .nestedGroup = 0) (hn : root.get? path = some n)
    (hk : n.isOperand = false) (hq : intent.addition? e (e.joint root path n) = some q) :
    e.apply root path intent =
      (e.observed root, .ok (some (root.replaceAt path (boolean (e.joint root path n) n q)))) := by
  have hsite : (e.observed root).editNode intent (root.parent? path) path n =
      .ok (some (boolean (e.joint root path n) n q)) := by
    rw [← effective_observed] at hq ⊢
    cases intent <;> cases hq
    · exact editNode_eq_ok_iff.mpr (.addExpression hk)
    · exact editNode_eq_ok_iff.mpr (.addGroup hk)
  have hresult : (e.apply root path intent).2 =
      .ok (some (root.replaceAt path (boolean (e.joint root path n) n q))) := by
    have hup : root.foldAlong path (some (boolean (e.joint root path n) n q)) =
        .ok (some (root.replaceAt path (boolean (e.joint root path n) n q))) :=
      foldAlong_some hg hn fun hgroup => by cases hgroup
    rw [apply_of_get? hn, hsite, Except.bind, hup]
    rfl
  refine Prod.ext ?_ hresult
  rw [apply_fst_of_ok hresult]
  cases intent <;> cases hq <;> rfl

/-- The root that an addition leaves has nothing against the session. -/
theorem fits_override_of_addition (hn : root.get? path = some n) (q : Condition) :
    (root.replaceAt path (boolean (e.joint root path n) n q)).Fits (e.observed root).session.override := by
  cases path with
  | nil =>
    intro o ho
    rw [← effective_observed]
    exact (effective_of_override ho).symm
  | cons b rest =>
    have hlabel : (root.replaceAt (b :: rest) (boolean (e.joint root (b :: rest) n) n q)).label = root.label := by
      obtain ⟨child, hb, -⟩ := get?_cons_eq_some_iff.mp hn
      rw [replaceAt_cons hb, label_replaceBranch]
    exact fits_of_label hlabel (fits_observe e.session root)

/-- **A deletion of what was added restores the tree**, and the session is as the addition left it. -/
theorem apply_delete_of_added (hg : root.breaches .nestedGroup = 0) (hn : root.get? path = some n)
    (hm : q.get? rest = some m) (hk : m.isOperand = false) (hgroups : q.nonGroupAbove? rest = none) :
    (e.observed root).apply (root.replaceAt path (boolean (e.joint root path n) n q)) (path ++ .right :: rest)
      .delete = (e.observed root, .ok (some root)) := by
  have hadded : (root.replaceAt path (boolean (e.joint root path n) n q)).get? (path ++ .right :: rest) =
      some m := by
    rw [get?_replaceAt_append _ hn]
    exact hm
  refine Prod.ext ?_ ?_
  · rw [apply_fst_of_ne_nil (List.append_ne_nil_of_right_ne_nil _ (List.cons_ne_nil _ _))]
    exact congrArg (Editor.mk e.defaults) (observe_eq_self (fits_override_of_addition hn q))
  · rw [apply_delete hadded hk, foldAlong_none_of_joined hg hn _ hm hgroups]
    rfl

/-- **Deleting what was just added restores the tree.** In a tree without nested groups an addition to a node that is
no operand succeeds. A deletion of the row or of the group that it brought in, or of the row in the new group, then
gives the original tree, and leaves the session as the addition left it. -/
theorem deletion_undoes_addition (hg : root.breaches .nestedGroup = 0) (hn : root.get? path = some n)
    (hk : n.isOperand = false) (hp : e.defaults.placeholder.kind = .comparison) :
    (∃ t, (e.apply root path .addExpression).2 = .ok (some t) ∧
      (e.apply root path .addExpression).1.apply t (path ++ [.right]) .delete =
        ((e.apply root path .addExpression).1, .ok (some root))) ∧
    ∃ t, (e.apply root path .addGroup).2 = .ok (some t) ∧
      (e.apply root path .addGroup).1.apply t (path ++ [.right]) .delete =
        ((e.apply root path .addGroup).1, .ok (some root)) ∧
      (e.apply root path .addGroup).1.apply t (path ++ [.right, .child]) .delete =
        ((e.apply root path .addGroup).1, .ok (some root)) := by
  have hrow : e.defaults.placeholder.isOperand = false := by rw [isOperand, hp]; rfl
  constructor
  · have hq : Intent.addition? e (e.joint root path n) .addExpression = some e.defaults.placeholder := rfl
    rw [apply_of_addition hg hn hk hq]
    exact ⟨_, rfl, apply_delete_of_added hg hn (get?_nil _) hrow rfl⟩
  · have hq : Intent.addition? e (e.joint root path n) .addGroup =
      some (group (e.joint root path n).complement e.defaults.placeholder) := rfl
    rw [apply_of_addition hg hn hk hq]
    refine ⟨_, rfl, ?_, ?_⟩
    · exact apply_delete_of_added hg hn (get?_nil _) rfl rfl
    · exact apply_delete_of_added hg hn (get?_nil _) hrow rfl

/-- A group added at a root that is a group makes a boolean root with the override, so the override outlives the deletion
of the row inside of the new group. -/
theorem added_group_at_root_undone :
    bracketedRows.breaches .nestedGroup = 0 ∧ bracketedRows.get? [] = some bracketedRows ∧
    bracketedRows.isOperand = false ∧ (default : EditDefaults).placeholder.kind = .comparison ∧
    Editor.apply ⟨default, ⟨some .or⟩⟩ bracketedRows [] .addGroup =
      (⟨default, ⟨some .or⟩⟩, .ok (some (boolean .or bracketedRows (group .and emptyComparison)))) ∧
    Editor.apply ⟨default, ⟨some .or⟩⟩ (boolean .or bracketedRows (group .and emptyComparison))
        [.right, .child] .delete = (⟨default, ⟨some .or⟩⟩, .ok (some bracketedRows)) := by
  have hg : bracketedRows.breaches .nestedGroup = 0 := rfl
  have hn : bracketedRows.get? [] = some bracketedRows := rfl
  obtain ⟨-, t, ht, -, hchild⟩ := deletion_undoes_addition (e := ⟨default, ⟨some .or⟩⟩) hg hn rfl rfl
  cases ht
  exact ⟨hg, hn, rfl, rfl, rfl, hchild⟩

end ConditionTree
