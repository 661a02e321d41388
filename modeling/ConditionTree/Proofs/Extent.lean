import ConditionTree.Proofs.Deletion
import ConditionTree.Proofs.Enclosing
import ConditionTree.Proofs.Sites
import ConditionTree.Proofs.Walk
import Mathlib.Data.List.Perm.Basic

/-!
# Size and depth

A node that is put into a place brings its nodes to where those of the old one were, and the depth of the tree is that of
the rest or that of the new node below the place, whichever is more (`exists_labels_replaceAt`,
`exists_depth_replaceAt`). So an edit that deletes nothing is accounted for by its node alone. A deletion takes a branch
of the nearest boolean node above, this node, and the brackets around it if the other branch has brackets of its own
(`edits_account_for_size_and_depth`).
-/

namespace ConditionTree

open Condition

namespace Condition

/-- The nodes of a tree in order, each without what stands below it. -/
def labels (c : Condition) : List Label :=
  c.walk.map fun x => x.2.label

variable {root node child n new s t : Condition} {b : Branch} {path A : Path} {o : Connective}

/-! ### The nodes of a tree -/

theorem length_labels (c : Condition) : c.labels.length = c.nodeCount :=
  List.length_map _

theorem map_label_under (b : Branch) (c : Condition) : (under b c.walk).map (fun x => x.2.label) = c.labels := by
  rw [under, List.map_map]
  rfl

theorem labels_comparison (o : Comparator) (l r : Condition) :
    (comparison o l r).labels = .comparison o :: (l.labels ++ r.labels) := by
  rw [← map_label_under .left l, ← map_label_under .right r, ← List.map_append]
  rfl

theorem labels_boolean (o : Connective) (l r : Condition) :
    (boolean o l r).labels = .boolean o :: (l.labels ++ r.labels) := by
  rw [← map_label_under .left l, ← map_label_under .right r, ← List.map_append]
  rfl

theorem labels_group (o : Connective) (child : Condition) : (group o child).labels = .group o :: child.labels := by
  rw [← map_label_under .child child]
  rfl

theorem nodeCount_align (c : Condition) (o : Connective) : (c.align o).nodeCount = c.nodeCount := by
  induction c generalizing o with
  | boolean _ l r ihl ihr => rw [align, nodeCount_boolean, nodeCount_boolean, ihl, ihr]
  | group _ child ih => rw [align, nodeCount_group, nodeCount_group, ih]
  | _ => rfl

theorem depth_align (c : Condition) (o : Connective) : (c.align o).depth = c.depth := by
  induction c generalizing o with
  | boolean _ l r ihl ihr => rw [align, depth, depth, ihl, ihr]
  | group _ child ih => rw [align, depth, depth, ih]
  | _ => rfl

theorem one_le_depth (c : Condition) : 1 ≤ c.depth := by
  cases c <;> rw [depth] <;> omega

/-- What is no operand has something below it. -/
theorem two_le_depth (h : n.isOperand = false) : 2 ≤ n.depth := by
  cases n with
  | number | reference => cases h
  | comparison _ l r | boolean _ l r =>
    have hl := one_le_depth l
    rw [depth]
    omega
  | group _ child =>
    have hchild := one_le_depth child
    rw [depth]
    omega

theorem depth_of_isRow (h : n.IsRow) : n.depth = 2 := by
  have hoperand : ∀ {c : Condition}, c.isOperand → c.depth = 1 := fun {c} hc => by
    cases c <;> first | rfl | simp at hc
  cases n with
  | comparison o l r => rw [depth, hoperand h.1, hoperand h.2]; rfl
  | _ => cases h

/-! ### A node in a place -/

theorem exists_labels_replaceBranch (hb : node.branch? b = some child) :
    ∃ before after, ∀ x, (node.replaceBranch b x).labels = before ++ (x.labels ++ after) := by
  cases branch?_eq_some_iff.mp hb with
  | comparisonLeft o _ r => exact ⟨[.comparison o], r.labels, fun x => labels_comparison o x r⟩
  | comparisonRight o l _ =>
    exact ⟨.comparison o :: l.labels, [], fun x => by rw [List.append_nil]; exact labels_comparison o l x⟩
  | booleanLeft o _ r => exact ⟨[.boolean o], r.labels, fun x => labels_boolean o x r⟩
  | booleanRight o l _ =>
    exact ⟨.boolean o :: l.labels, [], fun x => by rw [List.append_nil]; exact labels_boolean o l x⟩
  | groupChild o => exact ⟨[.group o], [], fun x => by rw [List.append_nil]; exact labels_group o x⟩

/-- **A place cuts the nodes of a tree in three**, and what is put in changes those in the middle only. -/
theorem exists_labels_replaceAt : ∀ {path : Path} {root n : Condition}, root.get? path = some n →
    ∃ before after, ∀ x, (root.replaceAt path x).labels = before ++ (x.labels ++ after)
  | [], root, _, _ => ⟨[], [], fun x => by rw [replaceAt_nil, List.append_nil, List.nil_append]⟩
  | b :: rest, root, n, h => by
    obtain ⟨child, hb, hchild⟩ := get?_cons_eq_some_iff.mp h
    obtain ⟨before, after, hnode⟩ := exists_labels_replaceBranch hb
    obtain ⟨before', after', hrest⟩ := exists_labels_replaceAt hchild
    refine ⟨before ++ before', after' ++ after, fun x => ?_⟩
    rw [replaceAt_cons hb, hnode, hrest]
    simp only [List.append_assoc]

theorem exists_depth_replaceBranch (hb : node.branch? b = some child) :
    ∃ rest, ∀ x, (node.replaceBranch b x).depth = max rest (1 + x.depth) := by
  cases branch?_eq_some_iff.mp hb with
  | comparisonLeft _ _ r | booleanLeft _ _ r =>
    exact ⟨1 + r.depth, fun x => by rw [replaceBranch, depth]; omega⟩
  | comparisonRight _ l _ | booleanRight _ l _ =>
    exact ⟨1 + l.depth, fun x => by rw [replaceBranch, depth]; omega⟩
  | groupChild => exact ⟨0, fun x => by rw [replaceBranch, depth]; omega⟩

/-- **The deepest leaf is in the place or elsewhere**, and what is put in changes the depth of the place only. -/
theorem exists_depth_replaceAt : ∀ {path : Path} {root n : Condition}, root.get? path = some n →
    ∃ rest, ∀ x, (root.replaceAt path x).depth = max rest (path.length + x.depth)
  | [], root, _, _ => ⟨0, fun x => by simp⟩
  | b :: path, root, n, h => by
    obtain ⟨child, hb, hchild⟩ := get?_cons_eq_some_iff.mp h
    obtain ⟨beside, hnode⟩ := exists_depth_replaceBranch hb
    obtain ⟨rest, hrest⟩ := exists_depth_replaceAt hchild
    refine ⟨max beside (1 + rest), fun x => ?_⟩
    rw [replaceAt_cons hb, hnode, hrest, List.length_cons]
    omega

theorem nodeCount_replaceAt (h : root.get? path = some n) (x : Condition) :
    (root.replaceAt path x).nodeCount + n.nodeCount = root.nodeCount + x.nodeCount := by
  obtain ⟨before, after, hlabels⟩ := exists_labels_replaceAt h
  have hx := congrArg List.length (hlabels x)
  have hn := congrArg List.length (hlabels n)
  rw [replaceAt_self h] at hn
  simp only [List.length_append, length_labels] at hx hn
  omega

/-- What is put in can raise the depth of the tree to that of its place. -/
theorem depth_replaceAt_of_le (h : root.get? path = some n) {x : Condition} (hle : n.depth ≤ x.depth) :
    (root.replaceAt path x).depth = max root.depth (path.length + x.depth) := by
  obtain ⟨rest, hdepth⟩ := exists_depth_replaceAt h
  have hroot := hdepth n
  rw [replaceAt_self h] at hroot
  rw [hdepth, hroot]
  omega

/-- A place is no deeper than its tree. -/
theorem length_add_depth_le (h : root.get? path = some n) : path.length + n.depth ≤ root.depth := by
  have hroot := depth_replaceAt_of_le h (Nat.le_refl _)
  rw [replaceAt_self h] at hroot
  omega

theorem depth_replaceAt_le (h : root.get? path = some n) {x : Condition} (hle : x.depth ≤ n.depth) :
    (root.replaceAt path x).depth ≤ root.depth := by
  obtain ⟨rest, hdepth⟩ := exists_depth_replaceAt h
  have hroot := hdepth n
  rw [replaceAt_self h] at hroot
  rw [hdepth, hroot]
  omega

/-! ### What a deletion takes -/

/-- The brackets right around a place that a node with brackets of its own would double. -/
def doubledBrackets (root : Condition) (A : Path) (s : Condition) : List Label :=
  if s.isGroup ∧ (root.parent? A).any isGroup then (root.parent? A).toList.map label else []

/-- The tree `t` is `root` without a branch of the nearest boolean node above a place, without that node, and without the
brackets right around it if its other branch, which survives, is in brackets as well. -/
def ClosesUp (root : Condition) (path : Path) (t : Condition) : Prop :=
  ∃ A b rest o l r gone other s, root.booleanAbove? path = some A ∧ path = A ++ b :: rest ∧
    root.get? A = some (boolean o l r) ∧ root.get? (A ++ [b]) = some gone ∧
    b.sibling? = some other ∧ root.get? (A ++ [other]) = some s ∧
    root.labels.Perm (t.labels ++ (gone.labels ++ .boolean o :: root.doubledBrackets A s)) ∧
    root.nodeCount = t.nodeCount + gone.nodeCount + 1 +
      if s.isGroup ∧ (root.parent? A).any isGroup then 1 else 0

theorem length_doubledBrackets (root : Condition) (A : Path) (s : Condition) :
    (root.doubledBrackets A s).length = if s.isGroup ∧ (root.parent? A).any isGroup then 1 else 0 := by
  unfold doubledBrackets
  split_ifs with h
  · obtain ⟨-, hparent⟩ := h
    cases hp : root.parent? A with
    | none => rw [hp] at hparent; cases hparent
    | some a => rfl
  · rfl

/-- The survivor stands in for the boolean node with its two branches, and for the doubled brackets. -/
theorem exists_get?_survivorPlace_labels (ha : root.get? A = some n) (s : Condition) :
    ∃ c, root.get? (root.survivorPlace A s) = some c ∧ c.labels = root.doubledBrackets A s ++ n.labels ∧
      n.depth ≤ c.depth := by
  unfold survivorPlace doubledBrackets
  split_ifs with h
  · obtain ⟨-, hparent⟩ := h
    obtain rfl | ⟨p, b, rfl⟩ := List.eq_nil_or_concat' A
    · cases hparent
    obtain ⟨c, hc, hb⟩ := get?_concat_eq_some_iff.mp ha
    rw [parent?_concat, hc, Option.any_some] at hparent
    cases branch?_eq_some_iff.mp hb with
    | groupChild o =>
      refine ⟨group o n, by rw [List.dropLast_concat, hc], ?_, ?_⟩
      · rw [parent?_concat, hc, labels_group]
        rfl
      · rw [depth]
        omega
    | _ => cases hparent
  · exact ⟨n, ha, rfl, Nat.le_refl _⟩

/-- **What a boolean node leaves over.** Its survivor takes the place of all that goes. -/
theorem labels_survivor_perm {gone : Condition} {other : Branch} {l r : Condition}
    (ha : root.get? A = some (boolean o l r)) (hb : (boolean o l r).branch? b = some gone) (hother : b.sibling? = some other)
    (hs : (boolean o l r).branch? other = some s) :
    root.labels.Perm ((root.replaceAt (root.survivorPlace A s) s).labels ++
      (gone.labels ++ .boolean o :: root.doubledBrackets A s)) := by
  obtain ⟨c, hc, hlabels, -⟩ := exists_get?_survivorPlace_labels ha s
  obtain ⟨before, after, hcut⟩ := exists_labels_replaceAt hc
  have hroot := hcut c
  rw [replaceAt_self hc, hlabels, labels_boolean] at hroot
  rw [hroot, hcut s, List.perm_iff_count]
  intro label
  cases branch?_eq_some_iff.mp hb with
  | booleanLeft =>
    cases hother
    cases hs
    simp only [List.count_append, List.count_cons]
    omega
  | booleanRight =>
    cases hother
    cases hs
    simp only [List.count_append, List.count_cons]
    omega

theorem depth_sibling_le {other : Branch} {l r : Condition} (hs : (boolean o l r).branch? other = some s) :
    s.depth ≤ (boolean o l r).depth := by
  cases branch?_eq_some_iff.mp hs <;> rw [depth] <;> omega

end Condition

/-- What an intent does to the size and to the depth of a tree if it leaves the tree `t` over; `n` is its node. -/
def Intent.Resizes (e : Editor) (root : Condition) (path : Path) (n t : Condition) : Intent → Prop
  | addExpression =>
    t.nodeCount = root.nodeCount + 1 + e.defaults.placeholder.nodeCount ∧
    t.depth = max root.depth (path.length + 1 + max n.depth e.defaults.placeholder.depth) ∧
    (e.defaults.placeholder.IsRow → ∃ m, t.get? path = some m ∧ m.depth = n.depth + 1)
  | addGroup =>
    t.nodeCount = root.nodeCount + 2 + e.defaults.placeholder.nodeCount ∧
    t.depth = max root.depth (path.length + 1 + max n.depth (1 + e.defaults.placeholder.depth))
  | delete => root.ClosesUp path t ∧ t.depth ≤ root.depth
  | setConnective _ | setComparator _ | setValue _ | setReference _ =>
    t.nodeCount = root.nodeCount ∧ t.depth = root.depth

variable {e : Editor} {intent : Intent} {root n c t : Condition} {path : Path} {new : Option Condition}

/-- Two nodes of one size and depth make no difference to the tree. -/
theorem resizes_of_same (hn : root.get? path = some n) (hcount : c.nodeCount = n.nodeCount)
    (hdepth : c.depth = n.depth) :
    (root.replaceAt path c).nodeCount = root.nodeCount ∧ (root.replaceAt path c).depth = root.depth := by
  have hnodes := nodeCount_replaceAt hn c
  have hplace := length_add_depth_le hn
  refine ⟨by omega, ?_⟩
  rw [depth_replaceAt_of_le hn (by omega)]
  omega

/-- An edit that deletes nothing is accounted for by what it makes of its node. -/
theorem Intent.Makes.resizes (h : intent.Makes e root path n c) (hn : root.get? path = some n) (hk : intent ≠ .delete)
    (hrow : intent = .addExpression → n.isOperand = false) : intent.Resizes e root path n (root.replaceAt path c) := by
  have hnodes := nodeCount_replaceAt hn c
  cases intent with
  | addExpression =>
    cases h
    refine ⟨?_, ?_, fun hp => ⟨_, by simpa using get?_replaceAt_append [] hn, ?_⟩⟩
    · rw [nodeCount_boolean] at hnodes
      omega
    · rw [depth_replaceAt_of_le hn (by rw [depth]; omega), depth]
      omega
    · have htwo := two_le_depth (hrow rfl)
      rw [depth, depth_of_isRow hp]
      omega
  | addGroup =>
    cases h
    refine ⟨?_, ?_⟩
    · rw [nodeCount_boolean, nodeCount_group] at hnodes
      omega
    · rw [depth_replaceAt_of_le hn (by rw [depth]; omega), depth, depth]
      omega
  | delete => exact absurd rfl hk
  | setConnective o =>
    obtain ⟨o', child, rfl, rfl⟩ | ⟨-, -, rfl⟩ := h
    · refine resizes_of_same hn ?_ ?_
      · rw [nodeCount_group, nodeCount_group, nodeCount_align]
      · rw [depth, depth, depth_align]
    · exact resizes_of_same hn (nodeCount_align n o) (depth_align n o)
  | setComparator o =>
    obtain ⟨o', l, r, rfl, rfl⟩ := h
    exact resizes_of_same hn (by rw [nodeCount_comparison, nodeCount_comparison]) rfl
  | setValue x =>
    obtain ⟨y, rfl, rfl⟩ := h
    exact resizes_of_same hn rfl rfl
  | setReference s =>
    obtain ⟨s', rfl, rfl⟩ := h
    exact resizes_of_same hn rfl rfl

/-- A deletion that leaves something over closes up the nearest boolean node above. -/
theorem resizes_of_delete (hg : root.breaches .nestedGroup = 0) (hn : root.get? path = some n)
    (hup : root.foldAlong path none = .ok (some t)) : root.ClosesUp path t ∧ t.depth ≤ root.depth := by
  cases hA : root.nonGroupAbove? path with
  | none =>
    rw [foldAlong_none_of_groups hn hA] at hup
    cases hup
  | some A =>
    obtain ⟨b, rest, rfl, ⟨_, _, _, -, hremoved⟩ | ⟨o, l, r, other, s, ha, hother, hs, hsurvivor⟩⟩ :=
      foldAlong_none hn hA
    · rw [hremoved] at hup
      cases hup
    · rw [hsurvivor, foldAlong_survivor hg ha] at hup
      cases hup
      obtain ⟨gone, hgone⟩ := isSome_get?_of_prefix hn ⟨rest, List.append_assoc A [b] rest⟩
      obtain ⟨_, ha', hb⟩ := get?_concat_eq_some_iff.mp hgone
      cases ha.symm.trans ha'
      obtain ⟨_, ha', hs'⟩ := get?_concat_eq_some_iff.mp hs
      cases ha.symm.trans ha'
      obtain ⟨c, hc, -, hdepth⟩ := exists_get?_survivorPlace_labels ha s
      have hperm := labels_survivor_perm ha hb hother hs'
      have hcount := hperm.length_eq
      simp only [List.length_append, List.length_cons, length_labels, length_doubledBrackets] at hcount
      refine ⟨⟨A, b, rest, o, l, r, gone, other, s, booleanAbove?_of_nonGroupAbove? hA ha rfl, rfl, ha, hgone, hother,
        hs, hperm, by omega⟩, ?_⟩
      exact depth_replaceAt_le hc ((depth_sibling_le hs').trans hdepth)

/-- **Edits account for size and depth.** In a tree without nested groups, an addition brings in its boolean node, its
group if it is one, and the placeholder, and makes the tree as deep as the place is then, if this is more than before; a
row that is added puts the place one level deeper. A deletion that leaves a tree takes what `ClosesUp` says and makes no
tree deeper. All other intents keep size and depth. -/
theorem edits_account_for_size_and_depth (hg : root.breaches .nestedGroup = 0) (hn : root.get? path = some n)
    (h : (e.apply root path intent).2 = .ok new) :
    (new = none → intent = .delete) ∧ ∀ t ∈ new, intent.Resizes e root path n t := by
  obtain ⟨n', update, hn', hsite, hup⟩ := exists_site_of_apply h
  cases hn.symm.trans hn'
  by_cases hi : intent = .delete
  · subst hi
    refine ⟨fun _ => rfl, fun t ht => ?_⟩
    obtain rfl : new = some t := ht
    cases hsite with
    | delete => exact resizes_of_delete hg hn hup
  · obtain ⟨n', c, hn', hmakes, rfl⟩ := apply_eq_replaceAt hg hi h
    cases hn.symm.trans hn'
    refine ⟨fun hnone => absurd hnone (Option.some_ne_none _), fun t ht => ?_⟩
    cases ht
    refine hmakes.resizes hn hi fun hadd => ?_
    subst hadd
    cases hsite with
    | addExpression hk => exact hk

/-- A group added inside of brackets makes the tree two levels deeper. A deletion there takes the boolean node and the
brackets around it beside the row that is deleted. -/
theorem deletion_in_brackets_takes_two_more :
    (boolean .and emptyComparison bracketedRows).breaches .nestedGroup = 0 ∧
    (boolean .and emptyComparison bracketedRows).get? [.right, .child, .right] = some emptyComparison ∧
    (Editor.apply default (boolean .and emptyComparison bracketedRows) [.right, .child, .right] .addGroup).2 =
      .ok (some (boolean .and emptyComparison (group .and (boolean .or (group .and emptyComparison)
        (boolean .or emptyComparison (group .and emptyComparison)))))) ∧
    (boolean .and emptyComparison (group .and (boolean .or (group .and emptyComparison)
      (boolean .or emptyComparison (group .and emptyComparison))))).nodeCount = 13 + 2 + 3 ∧
    (boolean .and emptyComparison (group .and (boolean .or (group .and emptyComparison)
      (boolean .or emptyComparison (group .and emptyComparison))))).depth = max 6 (3 + 1 + max 2 (1 + 2)) ∧
    (Editor.apply default (boolean .and emptyComparison bracketedRows) [.right, .child, .right] .delete).2 =
      .ok (some (boolean .and emptyComparison (group .and emptyComparison))) ∧
    (boolean .and emptyComparison bracketedRows).booleanAbove? [.right, .child, .right] = some [.right, .child] ∧
    (boolean .and emptyComparison bracketedRows).nodeCount =
      (boolean .and emptyComparison (group .and emptyComparison)).nodeCount + emptyComparison.nodeCount + 1 + 1 := by
  have hg : (boolean .and emptyComparison bracketedRows).breaches .nestedGroup = 0 := rfl
  have hn : (boolean .and emptyComparison bracketedRows).get? [.right, .child, .right] = some emptyComparison := rfl
  have hadd : (Editor.apply default (boolean .and emptyComparison bracketedRows) [.right, .child, .right] .addGroup).2 =
      .ok (some (boolean .and emptyComparison (group .and (boolean .or (group .and emptyComparison)
        (boolean .or emptyComparison (group .and emptyComparison)))))) := rfl
  have hdelete : (Editor.apply default (boolean .and emptyComparison bracketedRows) [.right, .child, .right] .delete).2 =
      .ok (some (boolean .and emptyComparison (group .and emptyComparison))) := rfl
  obtain ⟨-, hadded⟩ := edits_account_for_size_and_depth hg hn hadd
  obtain ⟨hcount, hdepth⟩ := hadded _ rfl
  obtain ⟨-, hdeleted⟩ := edits_account_for_size_and_depth hg hn hdelete
  obtain ⟨⟨A, b, rest, o, l, r, gone, other, s, hA, hpath, -, hgone, hother, hs, -, htaken⟩, -⟩ := hdeleted _ rfl
  cases hA
  cases hpath
  cases hgone
  cases hother
  cases hs
  exact ⟨hg, hn, hadd, hcount, hdepth, hdelete, rfl, htaken⟩

end ConditionTree
