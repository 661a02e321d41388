import ConditionTree.Proofs.Extent
import ConditionTree.Summary
import Mathlib.Data.Finset.Card
import Mathlib.Data.List.Dedup
import Mathlib.Data.List.Pairwise
import Mathlib.Order.Bounds.Defs

/-!
# The figures of a summary

The counts of a summary are taken along the walk, the depth by recursion on the tree, the nesting of groups from the
paths and the violations from the report. `summary_is_consistent` says how they belong together: the counts of kinds add
up to the number of places, leaves and forks and connectives and groups agree, the depth and the nesting of groups are
the largest ones of the ways down, and the series are the ones that stand in the tree.
-/

namespace ConditionTree

namespace Condition

/-- How many nodes of a kind there are. -/
def countKind (k : NodeKind) (c : Condition) : Nat :=
  (c.walk.map Prod.snd).countP (·.kind = k)

/-- The number of groups on the way from the root to a place, both of them included. -/
def groupsOn (c : Condition) (path : Path) : Nat :=
  path.inits.countP fun p => (c.get? p).any isGroup

/-- The names of series in a tree, from left to right. -/
def names (c : Condition) : List String :=
  (c.walk.map Prod.snd).filterMap Summary.seriesOf?

variable {c n node child : Condition} {b : Branch} {path : Path}

/-! ### Counts -/

theorem map_snd_under (b : Branch) (nodes : List (Path × Condition)) :
    (under b nodes).map Prod.snd = nodes.map Prod.snd := by
  rw [under, List.map_map]
  rfl

theorem countKind_comparison (k : NodeKind) (o : Comparator) (l r : Condition) : (comparison o l r).countKind k =
    l.countKind k + r.countKind k + if k = .comparison then 1 else 0 := by
  rw [countKind, walk, List.map_cons, List.map_append, map_snd_under, map_snd_under, List.countP_cons,
    List.countP_append]
  cases k <;> rfl

theorem countKind_boolean (k : NodeKind) (o : Connective) (l r : Condition) : (boolean o l r).countKind k =
    l.countKind k + r.countKind k + if k = .boolean then 1 else 0 := by
  rw [countKind, walk, List.map_cons, List.map_append, map_snd_under, map_snd_under, List.countP_cons,
    List.countP_append]
  cases k <;> rfl

theorem countKind_group (k : NodeKind) (o : Connective) (child : Condition) : (group o child).countKind k =
    child.countKind k + if k = .group then 1 else 0 := by
  rw [countKind, walk, List.map_cons, map_snd_under, List.countP_cons]
  cases k <;> rfl

/-- Every node is of one kind. -/
theorem nodeCount_eq_sum_of_kinds (c : Condition) : c.nodeCount = c.countKind .comparison + c.countKind .boolean +
    c.countKind .group + c.countKind .number + c.countKind .reference := by
  have hnodes : ∀ nodes : List Condition, nodes.length =
      nodes.countP (·.kind = .comparison) + nodes.countP (·.kind = .boolean) + nodes.countP (·.kind = .group) +
        nodes.countP (·.kind = .number) + nodes.countP (·.kind = .reference) := by
    intro nodes
    induction nodes with
    | nil => rfl
    | cons node nodes ih =>
      simp only [List.length_cons, List.countP_cons, ih]
      generalize node.kind = k
      cases k <;> simp <;> omega
  rw [nodeCount, ← List.length_map Prod.snd]
  exact hnodes _

/-- Each node with two branches makes room for one leaf more. -/
theorem leaves_eq_forks_add_one (c : Condition) :
    c.countKind .number + c.countKind .reference = c.countKind .comparison + c.countKind .boolean + 1 := by
  induction c with
  | number | reference => rfl
  | comparison o l r ihl ihr =>
    simp [countKind_comparison]
    omega
  | boolean o l r ihl ihr =>
    simp [countKind_boolean]
    omega
  | group o child ih => simpa [countKind_group] using ih

theorem one_le_countKind_of_isGroup (h : c.isGroup) : 1 ≤ c.countKind .group := by
  cases c with
  | group o child => simp [countKind_group]
  | _ => cases h

/-- In each chain of nested groups, the innermost one is no violation. -/
theorem nestedGroups_le (c : Condition) : c.breaches .nestedGroup ≤ c.countKind .group - 1 := by
  induction c with
  | number | reference => exact Nat.zero_le _
  | comparison o l r ihl ihr =>
    simp [breaches_comparison, countKind_comparison]
    omega
  | boolean o l r ihl ihr =>
    simp [countKind_boolean]
    omega
  | group o child ih =>
    rw [breaches_group, countKind_group, childBreach, if_pos rfl]
    split_ifs with hg
    · have hone := one_le_countKind_of_isGroup hg.2
      omega
    · omega

/-! ### Places -/

theorem nodup_walk_paths (c : Condition) : (c.walk.map Prod.fst).Nodup :=
  List.pairwise_map.mpr ((pairwise_walk c).imp fun {x y} hxy hsame => by
    rw [hsame] at hxy
    exact Path.not_precedes_self _ hxy)

/-- **There are as many nodes as there are paths that find one.** -/
theorem exists_places (c : Condition) :
    ∃ places : Finset Path, (∀ p, p ∈ places ↔ (c.get? p).isSome) ∧ places.card = c.nodeCount := by
  refine ⟨(c.walk.map Prod.fst).toFinset, fun p => ?_, ?_⟩
  · simp [Option.isSome_iff_exists, mem_walk_iff]
  · rw [List.toFinset_card_of_nodup (nodup_walk_paths c), List.length_map]
    rfl

/-- There is a way from every node down to a leaf. -/
theorem exists_leaf (c : Condition) : ∃ q leaf, c.get? q = some leaf ∧ leaf.isOperand := by
  induction c with
  | number | reference => exact ⟨[], _, get?_nil _, rfl⟩
  | comparison _ _ _ ihl | boolean _ _ _ ihl =>
    obtain ⟨q, leaf, hq, hleaf⟩ := ihl
    exact ⟨.left :: q, leaf, by rw [get?_cons]; exact hq, hleaf⟩
  | group _ _ ih =>
    obtain ⟨q, leaf, hq, hleaf⟩ := ih
    exact ⟨.child :: q, leaf, by rw [get?_cons]; exact hq, hleaf⟩

/-- There is a place at the depth of the tree. -/
theorem exists_deepest (c : Condition) : ∃ q, (c.get? q).isSome ∧ c.depth = 1 + q.length := by
  induction c with
  | number | reference => exact ⟨[], by simp, rfl⟩
  | comparison o l r ihl ihr | boolean o l r ihl ihr =>
    obtain ⟨ql, hql, hl⟩ := ihl
    obtain ⟨qr, hqr, hr⟩ := ihr
    rcases Nat.le_total r.depth l.depth with hle | hle
    · exact ⟨.left :: ql, by rw [get?_cons]; exact hql, by rw [depth, List.length_cons]; omega⟩
    · exact ⟨.right :: qr, by rw [get?_cons]; exact hqr, by rw [depth, List.length_cons]; omega⟩
  | group o child ih =>
    obtain ⟨q, hq, hdepth⟩ := ih
    exact ⟨.child :: q, by rw [get?_cons]; exact hq, by rw [depth, List.length_cons]; omega⟩

/-- **The depth is that of the deepest place.** -/
theorem isGreatest_depth (c : Condition) : IsGreatest {d | ∃ p, (c.get? p).isSome ∧ d = 1 + p.length} c.depth := by
  refine ⟨exists_deepest c, ?_⟩
  rintro d ⟨p, hp, rfl⟩
  obtain ⟨n, hn⟩ := Option.isSome_iff_exists.mp hp
  have hplace := length_add_depth_le hn
  have hone := one_le_depth n
  omega

/-! ### Groups on the way -/

theorem groupsOn_cons (hb : node.branch? b = some child) (rest : Path) :
    node.groupsOn (b :: rest) = (if node.isGroup then 1 else 0) + child.groupsOn rest := by
  have hrest : (rest.inits.map (b :: ·)).countP (fun p => (node.get? p).any isGroup) = child.groupsOn rest := by
    rw [List.countP_map, groupsOn]
    refine List.countP_congr fun p _ => ?_
    rw [Function.comp_apply, get?_cons, hb]
    rfl
  rw [groupsOn, List.inits_cons, List.countP_cons, hrest, get?_nil, Nat.add_comm]
  rfl

/-- The groups above a place are the steps into one, since no other node has such a branch. -/
theorem groupsOn_eq : ∀ {path : Path} {c n : Condition}, c.get? path = some n →
    c.groupsOn path = path.count .child + if n.isGroup then 1 else 0
  | [], c, n, h => by
    cases (get?_nil c).symm.trans h
    simp [groupsOn, List.countP_cons]
  | b :: rest, c, n, h => by
    obtain ⟨child, hb, hchild⟩ := get?_cons_eq_some_iff.mp h
    rw [groupsOn_cons hb, groupsOn_eq hchild, List.count_cons]
    cases branch?_eq_some_iff.mp hb with
    | groupChild =>
      simp
      omega
    | _ => simp

end Condition

open Condition

/-- The largest number of a list, and of the one that it is started with. -/
theorem isGreatest_foldl_max (l : List Nat) (m : Nat) : IsGreatest {k | k = m ∨ k ∈ l} (l.foldl max m) := by
  induction l generalizing m with
  | nil => simp [IsGreatest, upperBounds]
  | cons x l ih =>
    obtain ⟨hmem, hbound⟩ := ih (max m x)
    rw [List.foldl_cons]
    refine ⟨?_, ?_⟩
    · rcases hmem with hmax | hmem
      · rcases Nat.le_total m x with hle | hle
        · exact .inr (by rw [hmax, Nat.max_eq_right hle]; exact List.mem_cons_self)
        · exact .inl (by rw [hmax, Nat.max_eq_left hle])
      · exact .inr (List.mem_cons_of_mem x hmem)
    · have hmax : max m x ≤ l.foldl max (max m x) := hbound (.inl rfl)
      rintro k (rfl | hk)
      · omega
      · rcases List.mem_cons.mp hk with rfl | hk
        · omega
        · exact hbound (.inr hk)

namespace Summary

variable {c : Condition} {name : String} {l : List String}

theorem nodeCount_eq (c : Condition) : (of c).nodeCount = c.nodeCount :=
  List.length_map _

/-- **The nesting of groups is that on the way to some leaf**, and on no way to a leaf there are more groups. -/
theorem isGreatest_groupLevel (c : Condition) :
    IsGreatest {k | ∃ p leaf, c.get? p = some leaf ∧ leaf.isOperand ∧ k = c.groupsOn p} (of c).groupLevel := by
  have hleaf : ∀ {n : Condition}, n.isOperand → n.isGroup = false := fun {n} hn => by
    cases n <;> first | rfl | simp at hn
  have hlevel : (of c).groupLevel = (c.walk.map fun x => x.1.count .child).foldl max 0 := rfl
  obtain ⟨hmem, hbound⟩ := isGreatest_foldl_max (c.walk.map fun x => x.1.count .child) 0
  rw [← hlevel] at hmem hbound
  refine ⟨?_, ?_⟩
  · -- from the place of the largest count, a leaf is reached, and the count does not fall on the way
    obtain ⟨path, n, hn, hcount⟩ : ∃ path n, c.get? path = some n ∧ path.count .child = (of c).groupLevel := by
      rcases hmem with hzero | hmem
      · exact ⟨[], c, get?_nil c, hzero.symm⟩
      · obtain ⟨⟨path, n⟩, hx, hcount⟩ := List.mem_map.mp hmem
        exact ⟨path, n, mem_walk_iff.mp hx, hcount⟩
    obtain ⟨q, leaf, hq, hoperand⟩ := exists_leaf n
    have hway : c.get? (path ++ q) = some leaf := by rw [get?_append, hn]; exact hq
    refine ⟨path ++ q, leaf, hway, hoperand, ?_⟩
    have hle : (path ++ q).count .child ≤ (of c).groupLevel :=
      hbound (.inr (List.mem_map.mpr ⟨(path ++ q, leaf), mem_walk_iff.mpr hway, rfl⟩))
    rw [groupsOn_eq hway, hleaf hoperand]
    rw [List.count_append] at hle ⊢
    simp only [Bool.false_eq_true, if_false]
    omega
  · rintro k ⟨path, leaf, hway, hoperand, rfl⟩
    rw [groupsOn_eq hway, hleaf hoperand]
    exact hbound (.inr (List.mem_map.mpr ⟨(path, leaf), mem_walk_iff.mpr hway, rfl⟩))

/-! ### Series -/

theorem mem_insertOnce {s t : String} : t ∈ insertOnce s l ↔ t = s ∨ t ∈ l := by
  induction l with
  | nil => simp [insertOnce]
  | cons u l ih =>
    rw [insertOnce]
    split_ifs with heq hlt
    · simp [heq]
    · simp
    · rw [List.mem_cons, ih, List.mem_cons]
      exact or_left_comm

theorem pairwise_insertOnce (s : String) (h : l.Pairwise (· < ·)) : (insertOnce s l).Pairwise (· < ·) := by
  induction l with
  | nil => exact List.pairwise_singleton _ _
  | cons t l ih =>
    obtain ⟨ht, hl⟩ := List.pairwise_cons.mp h
    rw [insertOnce]
    split_ifs with heq hlt
    · exact h
    · refine List.pairwise_cons.mpr ⟨fun u hu => ?_, h⟩
      rcases List.mem_cons.mp hu with rfl | hu
      · exact hlt
      · exact String.lt_trans hlt (ht u hu)
    · refine List.pairwise_cons.mpr ⟨fun u hu => ?_, ih hl⟩
      rcases mem_insertOnce.mp hu with rfl | hu
      · by_contra hnot
        exact heq (String.le_antisymm (String.not_lt.mp hnot) (String.not_lt.mp hlt))
      · exact ht u hu

theorem mem_foldr_insertOnce : name ∈ l.foldr insertOnce [] ↔ name ∈ l := by
  induction l with
  | nil => rfl
  | cons s l ih => rw [List.foldr_cons, mem_insertOnce, List.mem_cons, ih]

theorem pairwise_foldr_insertOnce (l : List String) : (l.foldr insertOnce []).Pairwise (· < ·) := by
  induction l with
  | nil => exact .nil
  | cons s l ih => exact pairwise_insertOnce s ih

theorem series_eq (c : Condition) : (of c).series = c.names.foldr insertOnce [] := rfl

/-- The series are as many as there are names, each of them counted once. -/
theorem length_series (c : Condition) : (of c).series.length = c.names.dedup.length := by
  have hnodup : (of c).series.Nodup := by
    rw [series_eq]
    refine (pairwise_foldr_insertOnce c.names).imp fun {s t} hlt heq => ?_
    exact String.lt_irrefl t (heq ▸ hlt)
  refine (List.perm_of_nodup_nodup_toFinset_eq hnodup (List.nodup_dedup _) ?_).length_eq
  ext name
  rw [List.mem_toFinset, List.mem_toFinset, List.mem_dedup, series_eq, mem_foldr_insertOnce]

theorem seriesOf?_eq_some_iff {n : Condition} : seriesOf? n = some name ↔ n = reference (some name) := by
  cases n <;> simp [seriesOf?]

theorem mem_names_iff : name ∈ c.names ↔ ∃ p, c.get? p = some (reference (some name)) := by
  simp only [names, List.mem_filterMap, List.mem_map, seriesOf?_eq_some_iff, Prod.exists, exists_eq_right,
    mem_walk_iff]

/-- A reference has a name or none. -/
theorem length_names_add (c : Condition) : c.names.length + (of c).unsetReferences = (of c).references := by
  have hnodes : ∀ nodes : List Condition, (nodes.filterMap seriesOf?).length +
      nodes.countP (· = reference none) = nodes.countP (·.kind = .reference) := by
    intro nodes
    induction nodes with
    | nil => rfl
    | cons node nodes ih =>
      rw [List.countP_cons, List.countP_cons, ← ih, List.filterMap_cons]
      cases node with
      | reference s => cases s <;> simp [seriesOf?, kind] <;> omega
      | _ => simp [seriesOf?, kind]
  exact hnodes _

/-- No series stands in two places exactly if no name comes twice. -/
theorem nodup_names_iff : c.names.Nodup ↔ ∀ p q name, c.get? p = some (reference (some name)) →
    c.get? q = some (reference (some name)) → p = q := by
  rw [names, List.filterMap_map, List.Nodup, List.pairwise_filterMap]
  constructor
  · intro h p q name hp hq
    by_contra hne
    have hsymm : Std.Symm fun x y : Path × Condition => ∀ s, (seriesOf? ∘ Prod.snd) x = some s →
        ∀ t, (seriesOf? ∘ Prod.snd) y = some t → s ≠ t :=
      ⟨fun x y hxy s hs t ht hst => hxy t ht s hs hst.symm⟩
    exact h.forall (mem_walk_iff.mpr hp) (mem_walk_iff.mpr hq) (fun heq => hne (congrArg Prod.fst heq))
      name rfl name rfl rfl
  · intro h
    refine (nodup_walk_paths c).of_map.pairwise_of_forall_ne fun x hx y hy hne s hs t ht hst => ?_
    have hxs : x.2 = reference (some s) := seriesOf?_eq_some_iff.mp hs
    have hys : y.2 = reference (some s) := seriesOf?_eq_some_iff.mp (hst ▸ ht)
    have hpath : x.1 = y.1 := by
      refine h x.1 y.1 s (mem_walk_iff.mp ?_) (mem_walk_iff.mp ?_)
      · rwa [← hxs]
      · rwa [← hys]
    exact hne (Prod.ext hpath (hxs.trans hys.symm))

/-! ### Connectives -/

/-- The nodes with a connective are the booleans and the groups. -/
theorem connectives_eq (c : Condition) :
    (of c).andOperators + (of c).orOperators = (of c).booleans + (of c).groups := by
  have hnodes : ∀ nodes : List Condition, nodes.countP (·.connective? = some .and) +
      nodes.countP (·.connective? = some .or) = nodes.countP (·.kind = .boolean) + nodes.countP (·.kind = .group) := by
    intro nodes
    induction nodes with
    | nil => rfl
    | cons node nodes ih =>
      have hnode : (if node.connective? = some .and then 1 else 0) + (if node.connective? = some .or then 1 else 0) =
          (if node.kind = .boolean then 1 else 0) + (if node.kind = .group then 1 else 0) := by
        cases node with
        | boolean o | group o => cases o <;> rfl
        | _ => rfl
      simp only [List.countP_cons, decide_eq_true_eq]
      omega
  exact hnodes _

end Summary

/-- **A summary is a consistent account of its tree.** Every node is of one kind and has its place, each fork makes room
for one leaf more, and the connectives are those of the booleans and the groups. The depth is that of the deepest
place, the nesting of groups is the largest number of them on a way to a leaf. The series are those that are set in the
tree, each once and in order; a reference adds to them unless it is unset or its series stands elsewhere, too. Of the
groups, one at least is no nested one. -/
theorem summary_is_consistent (c : Condition) :
    let s := Summary.of c
    s.nodeCount = s.comparisons + s.booleans + s.groups + s.numbers + s.references ∧
    (∃ places : Finset Path, (∀ p, p ∈ places ↔ (c.get? p).isSome) ∧ places.card = s.nodeCount) ∧
    s.numbers + s.references = s.comparisons + s.booleans + 1 ∧
    s.andOperators + s.orOperators = s.booleans + s.groups ∧
    IsGreatest {d | ∃ p, (c.get? p).isSome ∧ d = 1 + p.length} s.depth ∧
    IsGreatest {k | ∃ p leaf, c.get? p = some leaf ∧ leaf.isOperand ∧ k = c.groupsOn p} s.groupLevel ∧
    (∀ name, name ∈ s.series ↔ ∃ p, c.get? p = some (reference (some name))) ∧
    s.series.Pairwise (· < ·) ∧
    s.series.length + s.unsetReferences ≤ s.references ∧
    (s.series.length + s.unsetReferences = s.references ↔
      ∀ p q name, c.get? p = some (reference (some name)) → c.get? q = some (reference (some name)) → p = q) ∧
    s.violations.countP (·.rule = .nestedGroup) ≤ s.groups - 1 := by
  intro s
  have hseries := Summary.length_series c
  have hnames := Summary.length_names_add c
  have hdedup := (List.dedup_sublist c.names).length_le
  refine ⟨(Summary.nodeCount_eq c).trans (nodeCount_eq_sum_of_kinds c), ?_, leaves_eq_forks_add_one c,
    Summary.connectives_eq c, isGreatest_depth c, Summary.isGreatest_groupLevel c, fun name => ?_, ?_, ?_, ?_,
    nestedGroups_le c⟩
  · rw [Summary.nodeCount_eq]
    exact exists_places c
  · rw [Summary.series_eq, Summary.mem_foldr_insertOnce, Summary.mem_names_iff]
  · exact Summary.pairwise_foldr_insertOnce c.names
  · show (Summary.of c).series.length + (Summary.of c).unsetReferences ≤ (Summary.of c).references
    omega
  · rw [← Summary.nodup_names_iff]
    have hequal : (Summary.of c).series.length + (Summary.of c).unsetReferences = (Summary.of c).references ↔
        c.names.dedup.length = c.names.length := by omega
    refine hequal.trans ⟨fun hlength => ?_, fun hnodup => by rw [hnodup.dedup]⟩
    exact List.dedup_eq_self.mp ((List.dedup_sublist c.names).eq_of_length hlength)

end ConditionTree
