import ConditionTree.Proofs.Places
import ConditionTree.Proofs.Violations

/-!
# The way up

An edit is the change of the node that it is meant for, folded into one node after the other on the way up to the root
(`editAt_of_get?`). The two parts know nothing of each other: the intent decides what becomes of the node, and
`foldAlong` decides what becomes of the nodes above it, given only what the node became.

A node that is left over is put into its place (`foldAlong_some`) in a tree without nested groups, unless it is a group
that comes to stand below a group. A place that becomes empty empties the groups above it, up to the first node that
is none (`foldAlong_none`).
-/

namespace ConditionTree

open Condition

namespace Condition

/-- What becomes of a tree in which the node at the end of a path became another one or is gone. -/
def foldAlong : Condition → Path → Option Condition → Except FoldError (Option Condition)
  | _, [], update => .ok update
  | node, b :: rest, update =>
    match node.branch? b with
    | some child => (child.foldAlong rest update).bind (node.fold b)
    | none => .error (.branchMismatch b node.kind)

variable {node child new n : Condition} {b : Branch} {path rest : Path}

@[simp] theorem foldAlong_nil (node : Condition) (update : Option Condition) :
    node.foldAlong [] update = .ok update := by
  cases node <;> rfl

theorem foldAlong_cons (hb : node.branch? b = some child) (rest : Path) (update : Option Condition) :
    node.foldAlong (b :: rest) update = (child.foldAlong rest update).bind (node.fold b) := by
  rw [foldAlong, hb]

/-- The lower part of the way goes first. -/
theorem foldAlong_append (q : Path) (update : Option Condition) : ∀ {p : Path} {node n : Condition},
    node.get? p = some n → node.foldAlong (p ++ q) update = (n.foldAlong q update).bind (node.foldAlong p)
  | [], node, n, h => by
    rw [get?_nil, Option.some.injEq] at h
    subst h
    rw [List.nil_append, show node.foldAlong [] = .ok from funext (foldAlong_nil node)]
    cases node.foldAlong q update <;> rfl
  | b :: p, node, n, h => by
    obtain ⟨child, hb, hchild⟩ := get?_cons_eq_some_iff.mp h
    have hfun : node.foldAlong (b :: p) = fun u => (child.foldAlong p u).bind (node.fold b) :=
      funext (foldAlong_cons hb p)
    rw [List.cons_append, foldAlong_cons hb, foldAlong_append q update hchild, hfun]
    cases n.foldAlong q update <;> rfl

/-! ### A node that is left over -/

/-- A node that is left over always finds a tree around it. -/
theorem exists_foldAlong_some (c : Condition) : ∀ {path : Path} {node n : Condition},
    node.get? path = some n → ∃ t, node.foldAlong path (some c) = .ok (some t)
  | [], node, _, _ => ⟨c, foldAlong_nil node _⟩
  | b :: rest, node, n, h => by
    obtain ⟨child, hb, hchild⟩ := get?_cons_eq_some_iff.mp h
    obtain ⟨t, ht⟩ := exists_foldAlong_some c hchild
    exact ⟨_, by rw [foldAlong_cons hb, ht]; exact fold_some hb t⟩

theorem isGroup_child_of_breaches {o : Connective} (h : (group o child).breaches .nestedGroup = 0) :
    child.isGroup = false := by
  rw [breaches_group] at h
  cases hg : child.isGroup with
  | false => rfl
  | true => simp [childBreach, hg] at h

/-- A group is no branch of a group in a tree without nested groups. -/
theorem isGroup_branch_of_breaches (hg : node.breaches .nestedGroup = 0)
    (hb : node.branch? b = some child) (hn : node.isGroup) : child.isGroup = false := by
  cases branch?_eq_some_iff.mp hb with
  | groupChild => exact isGroup_child_of_breaches hg
  | _ => simp at hn

/-- Where no group stands below a group, there is none above a group. -/
theorem isGroup_parent_of_breaches : ∀ {path : Path} {node n a : Condition},
    node.breaches .nestedGroup = 0 → node.get? path = some n → n.isGroup → a ∈ node.parent? path →
      a.isGroup = false
  | [], _, _, _, _, _, _, ha => by cases ha
  | b :: rest, node, n, a, hg, h, hn, ha => by
    obtain ⟨child, hb, hchild⟩ := get?_cons_eq_some_iff.mp h
    have hle := breaches_branch_le .nestedGroup hb
    rw [parent?_cons hb hchild, Option.mem_def, Option.or_eq_some_iff] at ha
    obtain ha | ⟨hnone, ha⟩ := ha
    · exact isGroup_parent_of_breaches (by omega) hchild hn ha
    · cases ha
      -- the node is right below this one
      obtain rfl := (parent?_eq_none_iff hchild).mp hnone
      cases hchild
      by_contra ha
      rw [isGroup_branch_of_breaches hg hb (by simpa using ha)] at hn
      cases hn

/-- In a tree without nested groups, **a node that is left over takes its place**, if this makes no group the child of
a group. -/
theorem foldAlong_some : ∀ {path : Path} {node n : Condition}, node.breaches .nestedGroup = 0 →
    node.get? path = some n → (new.isGroup → ∀ a ∈ node.parent? path, a.isGroup = false) →
      node.foldAlong path (some new) = .ok (some (node.replaceAt path new))
  | [], node, n, _, _, _ => by rw [foldAlong_nil, replaceAt_nil]
  | b :: rest, node, n, hg, h, hnew => by
    obtain ⟨child, hb, hchild⟩ := get?_cons_eq_some_iff.mp h
    have hle := breaches_branch_le .nestedGroup hb
    rw [parent?_cons hb hchild] at hnew
    have hrest : child.foldAlong rest (some new) = .ok (some (child.replaceAt rest new)) :=
      foldAlong_some (by omega) hchild fun hgroup a ha =>
        hnew hgroup a (by rw [Option.mem_def.mp ha]; rfl)
    -- no group comes to stand below this node if it is one
    have hchildGroup : ¬ (node.isGroup ∧ (child.replaceAt rest new).isGroup) := by
      rintro ⟨hnode, hgroup⟩
      cases rest with
      | nil =>
        rw [replaceAt_nil] at hgroup
        have hfalse := hnew hgroup node (by simp)
        rw [hnode] at hfalse
        cases hfalse
      | cons b' rest =>
        obtain ⟨grandchild, hb', -⟩ := get?_cons_eq_some_iff.mp hchild
        rw [isGroup_replaceAt_cons hb', isGroup_branch_of_breaches hg hb hnode] at hgroup
        cases hgroup
    rw [foldAlong_cons hb, hrest]
    simp only [Except.bind, fold_some hb, if_neg hchildGroup, replaceAt_cons hb]

/-! ### A place that becomes empty -/

/-- Groups go with what they hold. -/
theorem foldAlong_none_of_groups : ∀ {path : Path} {node n : Condition}, node.get? path = some n →
    node.nonGroupAbove? path = none → node.foldAlong path none = .ok none
  | [], node, _, _, _ => foldAlong_nil node none
  | b :: rest, node, n, h, hA => by
    obtain ⟨child, hb, hchild⟩ := get?_cons_eq_some_iff.mp h
    obtain ⟨hg, hrest⟩ := (nonGroupAbove?_cons_eq_none_iff hb).mp hA
    rw [foldAlong_cons hb, foldAlong_none_of_groups hchild hrest]
    cases branch?_eq_some_iff.mp hb with
    | groupChild => rfl
    | _ => simp at hg

/-- An empty place with groups only above it, up to a branch of a node, is a branch that the node loses. -/
theorem foldAlong_none_append {a : Condition} {A : Path} (ha : node.get? A = some a) (hb : a.branch? b = some child)
    (hn : child.get? rest = some n) (hgroups : child.nonGroupAbove? rest = none) :
    node.foldAlong (A ++ b :: rest) none = (a.fold b none).bind (node.foldAlong A) := by
  rw [foldAlong_append _ _ ha, foldAlong_cons hb, foldAlong_none_of_groups hn hgroups]
  rfl

/-- What becomes of a node that is no group without one of its branches. -/
theorem fold_none (hb : node.branch? b = some child) (hg : node.isGroup = false) :
    (∃ o l r, node = comparison o l r ∧ node.fold b none = .error (.operandRemoved b)) ∨
    ∃ o l r other s, node = boolean o l r ∧ b.sibling? = some other ∧ node.branch? other = some s ∧
      node.fold b none = .ok (some s) := by
  cases branch?_eq_some_iff.mp hb with
  | comparisonLeft o _ r => exact .inl ⟨o, _, r, rfl, rfl⟩
  | comparisonRight o l _ => exact .inl ⟨o, l, _, rfl, rfl⟩
  | booleanLeft o _ r => exact .inr ⟨o, _, r, .right, r, rfl, rfl, rfl, rfl⟩
  | booleanRight o l _ => exact .inr ⟨o, l, _, .left, l, rfl, rfl, rfl, rfl⟩
  | groupChild => cases hg

/-- **A place that becomes empty** takes all groups right above it along, so that it is the first node above which is
none that loses its branch: a comparison cannot do without it, and a boolean node leaves its other side over. -/
theorem foldAlong_none {A : Path} (hn : node.get? path = some n) (hA : node.nonGroupAbove? path = some A) :
    ∃ b rest, path = A ++ b :: rest ∧
      ((∃ o l r, node.get? A = some (comparison o l r) ∧
          node.foldAlong path none = .error (.operandRemoved b)) ∨
        ∃ o l r other s, node.get? A = some (boolean o l r) ∧ b.sibling? = some other ∧
          node.get? (A ++ [other]) = some s ∧
          node.foldAlong path none = node.foldAlong A (some s)) := by
  obtain ⟨a, b, child, rest, rfl, ha, hag, hb, hchild, hrest⟩ := exists_of_nonGroupAbove?_eq_some hn hA
  have hfold := foldAlong_none_append ha hb hchild hrest
  refine ⟨b, rest, rfl, ?_⟩
  obtain ⟨o, l, r, rfl, hremoved⟩ | ⟨o, l, r, other, s, rfl, hother, hs, hsurvivor⟩ := fold_none hb hag
  · refine .inl ⟨o, l, r, ha, ?_⟩
    rw [hfold, hremoved]
    rfl
  · refine .inr ⟨o, l, r, other, s, ha, hother, get?_concat_eq_some_iff.mpr ⟨_, ha, hs⟩, ?_⟩
    rw [hfold, hsurvivor]
    rfl

end Condition

variable {e : Editor} {intent : Intent} {root n : Condition} {b : Branch} {path p rest : Path}
  {new : Option Condition}

/-! ### Edits -/

/-- **An edit is the change of its node, folded up along the path.** -/
theorem editAt_of_get? : ∀ {at' path : Path} {node n : Condition} {parent : Option Condition},
    node.get? at' = some n → e.editAt intent parent path node at' =
      (e.editNode intent ((node.parent? at').or parent) (path ++ at') n).bind fun update =>
        (node.foldAlong at' update).mapError .fold
  | [], path, node, n, parent, h => by
    rw [get?_nil, Option.some.injEq] at h
    subst h
    rw [Editor.editAt, parent?_nil, Option.none_or, List.append_nil]
    cases e.editNode intent parent path node with
    | error error => rfl
    | ok update => simp [Except.bind, Except.mapError]
  | b :: rest, path, node, n, parent, h => by
    obtain ⟨child, hb, hchild⟩ := get?_cons_eq_some_iff.mp h
    rw [editAt_cons hb, editAt_of_get? hchild, parent?_cons hb hchild, Option.or_assoc, Option.some_or,
      List.append_assoc, List.singleton_append]
    cases e.editNode intent ((child.parent? rest).or (some node)) (path ++ b :: rest) n with
    | error error => rfl
    | ok update =>
      simp only [Except.bind, foldAlong_cons hb]
      cases child.foldAlong rest update <;> rfl

/-- An edit for a place that a tree does not have fails at the first branch that is missing. -/
theorem editAt_of_missing (hb : n.branch? b = none) : ∀ {p path : Path} {node : Condition}
    {parent : Option Condition}, node.get? p = some n →
      e.editAt intent parent path node (p ++ b :: rest) = .error (.noSuchBranch b n.kind (path ++ p))
  | [], path, node, parent, h => by
    rw [get?_nil, Option.some.injEq] at h
    subst h
    rw [List.nil_append, Editor.editAt, hb, List.append_nil]
  | b' :: p, path, node, parent, h => by
    obtain ⟨child, hb', hchild⟩ := get?_cons_eq_some_iff.mp h
    rw [List.cons_append, editAt_cons hb', editAt_of_missing hb hchild, List.append_assoc,
      List.singleton_append]
    rfl

theorem apply_snd : (e.apply root path intent).2 =
    (e.observed root).editAt intent none [] root path := by
  simp only [Editor.apply, Editor.observed]
  split <;> simp_all

/-- What comes of an edit that leaves the tree. -/
theorem apply_of_missing (h : root.get? p = some n) (hb : n.branch? b = none) (rest : Path) :
    (e.apply root (p ++ b :: rest) intent).2 = .error (.noSuchBranch b n.kind p) := by
  rw [apply_snd, editAt_of_missing hb h, List.nil_append]

/-- An edit that succeeds has a place to act at. -/
theorem exists_get?_of_apply (h : (e.apply root path intent).2 = .ok new) :
    ∃ n, root.get? path = some n := by
  cases hn : root.get? path with
  | some n => exact ⟨n, rfl⟩
  | none =>
    obtain ⟨p, b, rest, a, rfl, ha, hb⟩ := exists_missing_branch hn
    rw [apply_of_missing ha hb] at h
    cases h

/-- What comes of an edit of a tree at one of its places. -/
theorem apply_of_get? (h : root.get? path = some n) : (e.apply root path intent).2 =
    ((e.observed root).editNode intent (root.parent? path) path n).bind fun update =>
      (root.foldAlong path update).mapError .fold := by
  rw [apply_snd, editAt_of_get? h, Option.or_none, List.nil_append]

/-- **An edit that succeeds** changed its node by one of the rules of the intent, and the tree around the node took the
change up. -/
theorem exists_site_of_apply (h : (e.apply root path intent).2 = .ok new) :
    ∃ n update, root.get? path = some n ∧
      SiteEdit (e.observed root) (root.parent? path) intent n update ∧ root.foldAlong path update = .ok new := by
  obtain ⟨n, hn⟩ := exists_get?_of_apply h
  rw [apply_of_get? hn] at h
  cases hu : (e.observed root).editNode intent (root.parent? path) path n with
  | error error => rw [hu] at h; cases h
  | ok update =>
    rw [hu, Except.bind] at h
    cases hf : root.foldAlong path update with
    | error error => rw [hf] at h; cases h
    | ok folded =>
      rw [hf] at h
      cases h
      exact ⟨n, update, hn, editNode_eq_ok_iff.mp hu, hf⟩

/-- What comes of a deletion. -/
theorem apply_delete (h : root.get? path = some n) (hk : n.isOperand = false) :
    (e.apply root path .delete).2 = (root.foldAlong path none).mapError .fold := by
  have hsite : (e.observed root).editNode .delete (root.parent? path) path n = .ok none :=
    editNode_eq_ok_iff.mpr (.delete hk)
  rw [apply_of_get? h, hsite]
  rfl

end ConditionTree
