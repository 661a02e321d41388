import ConditionTree.Proofs.Edits
import Mathlib.Data.List.Infix

/-!
# Places in a tree

A path names a place in a tree: a node with what stands above it and around it. `replaceAt` puts another node into a
place, and `Replaces` says in terms of paths what that means: the new node is found there with everything below it, the
nodes above keep their kinds and operators, and a path that leads elsewhere finds what it found before.

`nonGroupAbove?` looks for the nearest node above a place that is no group. That is the node which has to get along
without the branch once the place is empty, since groups go with what they hold.
-/

namespace ConditionTree

/-- A node without what stands below it. -/
inductive Label
  | number (value : Double)
  | reference (series : Option String)
  | comparison (operator : Comparator)
  | boolean (operator : Connective)
  | group (operator : Connective)
deriving DecidableEq, Repr

/-- The paths to the nodes above the end of a path, the root first. -/
def Path.above (path : Path) : List Path :=
  path.inits.dropLast

@[simp] theorem Path.above_nil : Path.above [] = [] := rfl

@[simp] theorem Path.above_cons (b : Branch) (rest : Path) :
    Path.above (b :: rest) = [] :: rest.above.map (b :: ·) := by
  have hne : rest.inits.map (b :: ·) ≠ [] := by
    cases rest <;> simp
  rw [Path.above, List.inits_cons, List.dropLast_cons_of_ne_nil hne, ← List.map_dropLast]
  rfl

namespace Condition

def label : Condition → Label
  | number x => .number x
  | reference s => .reference s
  | comparison o _ _ => .comparison o
  | boolean o _ _ => .boolean o
  | group o _ => .group o

/-- The node right above a place. The root has none above it. -/
def parent? (root : Condition) (path : Path) : Option Condition :=
  if path = [] then none else root.get? path.dropLast

/-- The longest way to a node above a place that is no group. -/
def nonGroupAbove? (root : Condition) (path : Path) : Option Path :=
  (path.above.filter fun p => (root.get? p).any fun c => !c.isGroup).getLast?

/-- The tree with another node in a place. A tree that has no such place stays as it is. -/
def replaceAt : Condition → Path → Condition → Condition
  | _, [], new => new
  | c, b :: rest, new =>
    match c.branch? b with
    | some child => c.replaceBranch b (child.replaceAt rest new)
    | none => c

/-- The tree `t` is `root` with `new` in a place. -/
structure Replaces (root : Condition) (place : Path) (new t : Condition) : Prop where
  /-- The new node is found in the place, with all that stands below it. -/
  inside : ∀ q, t.get? (place ++ q) = new.get? q
  /-- The nodes above keep their kinds and operators. -/
  above : ∀ p, p <+: place → p ≠ place → (t.get? p).map label = (root.get? p).map label
  /-- A path that leads elsewhere finds what it found before. -/
  apart : ∀ q, ¬ q <+: place → ¬ place <+: q → t.get? q = root.get? q

variable {root node child new n : Condition} {b : Branch} {path p rest : Path}

/-! ### One branch down -/

theorem get?_cons_eq_some_iff :
    node.get? (b :: rest) = some n ↔ ∃ child, node.branch? b = some child ∧ child.get? rest = some n := by
  rw [get?_cons, Option.bind_eq_some_iff]

/-- The last branch of a path is one of the node above its end. -/
theorem get?_concat_eq_some_iff :
    root.get? (path ++ [b]) = some n ↔ ∃ a, root.get? path = some a ∧ a.branch? b = some n := by
  simp only [get?_append, get?_cons, get?_nil, Option.bind_fun_some, Option.bind_eq_some_iff]

theorem branch?_replaceBranch (hb : node.branch? b = some child) (b' : Branch) :
    (node.replaceBranch b new).branch? b' = if b' = b then some new else node.branch? b' := by
  cases branch?_eq_some_iff.mp hb <;> cases b' <;> rfl

theorem branch?_replaceBranch_self (hb : node.branch? b = some child) (new : Condition) :
    (node.replaceBranch b new).branch? b = some new := by
  rw [branch?_replaceBranch hb, if_pos rfl]

@[simp] theorem label_replaceBranch (node : Condition) (b : Branch) (new : Condition) :
    (node.replaceBranch b new).label = node.label := by
  cases node <;> cases b <;> rfl

@[simp] theorem isGroup_replaceBranch (node : Condition) (b : Branch) (new : Condition) :
    (node.replaceBranch b new).isGroup = node.isGroup := by
  cases node <;> cases b <;> rfl

@[simp] theorem replaceAt_nil (c new : Condition) : c.replaceAt [] new = new := by
  cases c <;> rfl

theorem replaceAt_cons (hb : node.branch? b = some child) (rest : Path) (new : Condition) :
    node.replaceAt (b :: rest) new = node.replaceBranch b (child.replaceAt rest new) := by
  rw [replaceAt, hb]

theorem replaceAt_cons_of_none (hb : node.branch? b = none) (rest : Path) (new : Condition) :
    node.replaceAt (b :: rest) new = node := by
  rw [replaceAt, hb]

/-- Below the first branch, only that branch tells what is replaced. -/
theorem get?_replaceAt_cons (hb : node.branch? b = some child) (b' : Branch) (q : Path) :
    (node.replaceAt (b :: rest) new).get? (b' :: q) =
      if b' = b then (child.replaceAt rest new).get? q else node.get? (b' :: q) := by
  rw [replaceAt_cons hb, get?_cons, branch?_replaceBranch hb]
  by_cases h : b' = b
  · rw [if_pos h, if_pos h]
    rfl
  · rw [if_neg h, if_neg h, get?_cons]

/-- What stands below an operand is nothing. -/
theorem eq_of_get?_operand (hk : node.isOperand) (h : node.get? path = some n) : n = node := by
  cases path with
  | nil => exact (Option.some.inj ((get?_nil node).symm.trans h)).symm
  | cons b rest =>
    obtain ⟨child, hb, -⟩ := get?_cons_eq_some_iff.mp h
    cases branch?_eq_some_iff.mp hb <;> simp at hk

/-! ### The laws of `replaceAt` -/

/-- The new node is found in its place, with all that stands below it. -/
theorem get?_replaceAt_append (q : Path) :
    ∀ {p : Path} {c n : Condition}, c.get? p = some n → (c.replaceAt p new).get? (p ++ q) = new.get? q
  | [], c, n, _ => by simp
  | b :: p, c, n, h => by
    obtain ⟨child, hb, hchild⟩ := get?_cons_eq_some_iff.mp h
    rw [List.cons_append, get?_replaceAt_cons hb, if_pos rfl]
    exact get?_replaceAt_append q hchild

/-- The nodes above the place keep their labels. -/
theorem label_replaceAt : ∀ {p q : Path} (c : Condition), q <+: p → q ≠ p →
    ((c.replaceAt p new).get? q).map label = (c.get? q).map label
  | [], q, c, hq, hne => absurd (List.prefix_nil.mp hq) hne
  | b :: p, [], c, _, _ => by
    cases hb : c.branch? b with
    | none => rw [replaceAt_cons_of_none hb]
    | some child => simp [replaceAt_cons hb]
  | b :: p, b' :: q, c, hq, hne => by
    obtain ⟨rfl, hprefix⟩ := List.cons_prefix_cons.mp hq
    have hne' : q ≠ p := fun h => hne (h ▸ rfl)
    cases hb : c.branch? b' with
    | none => rw [replaceAt_cons_of_none hb]
    | some child =>
      rw [get?_replaceAt_cons hb, if_pos rfl, get?_cons, hb]
      exact label_replaceAt child hprefix hne'

/-- A path that leads elsewhere finds what it found before. -/
theorem get?_replaceAt_of_apart : ∀ {p q : Path} (c : Condition), ¬ q <+: p → ¬ p <+: q →
    (c.replaceAt p new).get? q = c.get? q
  | [], q, c, _, hp => absurd List.nil_prefix hp
  | b :: p, [], c, hq, _ => absurd List.nil_prefix hq
  | b :: p, b' :: q, c, hq, hp => by
    cases hb : c.branch? b with
    | none => rw [replaceAt_cons_of_none hb]
    | some child =>
      rw [get?_replaceAt_cons hb]
      by_cases h : b' = b
      · subst h
        rw [if_pos rfl, get?_cons, hb]
        refine get?_replaceAt_of_apart child (fun h => hq ?_) (fun h => hp ?_)
        · exact List.cons_prefix_cons.mpr ⟨rfl, h⟩
        · exact List.cons_prefix_cons.mpr ⟨rfl, h⟩
      · rw [if_neg h]

theorem replaceBranch_self (hb : node.branch? b = some child) : node.replaceBranch b child = node := by
  cases branch?_eq_some_iff.mp hb <;> rfl

@[simp] theorem replaceBranch_replaceBranch (node : Condition) (b : Branch) (x y : Condition) :
    (node.replaceBranch b x).replaceBranch b y = node.replaceBranch b y := by
  cases node <;> cases b <;> rfl

theorem replaceBranch_comm (node : Condition) {b b' : Branch} (h : b ≠ b') (x y : Condition) :
    (node.replaceBranch b x).replaceBranch b' y = (node.replaceBranch b' y).replaceBranch b x := by
  cases node <;> cases b <;> cases b' <;> simp_all [replaceBranch]

/-- A node put into its own place changes nothing. -/
theorem replaceAt_self : ∀ {path : Path} {root n : Condition}, root.get? path = some n →
    root.replaceAt path n = root
  | [], root, n, h => by
    cases (get?_nil root).symm.trans h
    exact replaceAt_nil root root
  | b :: rest, root, n, h => by
    obtain ⟨child, hb, hchild⟩ := get?_cons_eq_some_iff.mp h
    rw [replaceAt_cons hb, replaceAt_self hchild, replaceBranch_self hb]

/-- **Replacements in two places commute**, if neither place is inside of the other. -/
theorem replaceAt_comm (x y : Condition) : ∀ {p q : Path} {root m n : Condition}, root.get? p = some m →
    root.get? q = some n → ¬ p <+: q → ¬ q <+: p →
      (root.replaceAt p x).replaceAt q y = (root.replaceAt q y).replaceAt p x
  | [], q, root, _, _, _, _, hpq, _ => absurd List.nil_prefix hpq
  | b :: p, [], root, _, _, _, _, _, hqp => absurd List.nil_prefix hqp
  | b :: p, b' :: q, root, m, n, hm, hn, hpq, hqp => by
    obtain ⟨child, hb, hp⟩ := get?_cons_eq_some_iff.mp hm
    obtain ⟨child', hb', hq⟩ := get?_cons_eq_some_iff.mp hn
    have hleft : (root.replaceBranch b (child.replaceAt p x)).branch? b' =
        if b' = b then some (child.replaceAt p x) else root.branch? b' := branch?_replaceBranch hb b'
    have hright : (root.replaceBranch b' (child'.replaceAt q y)).branch? b =
        if b = b' then some (child'.replaceAt q y) else root.branch? b := branch?_replaceBranch hb' b
    rw [replaceAt_cons hb, replaceAt_cons hb']
    by_cases h : b = b'
    · subst h
      cases hb.symm.trans hb'
      rw [if_pos rfl] at hleft hright
      rw [replaceAt_cons hleft, replaceAt_cons hright, replaceBranch_replaceBranch, replaceBranch_replaceBranch,
        replaceAt_comm x y hp hq (fun h => hpq (List.cons_prefix_cons.mpr ⟨rfl, h⟩))
          fun h => hqp (List.cons_prefix_cons.mpr ⟨rfl, h⟩)]
    · rw [if_neg (Ne.symm h), hb'] at hleft
      rw [if_neg h, hb] at hright
      rw [replaceAt_cons hleft, replaceAt_cons hright, replaceBranch_comm root h]

theorem replaceAt_replaces (h : root.get? path = some n) (new : Condition) :
    root.Replaces path new (root.replaceAt path new) where
  inside q := get?_replaceAt_append q h
  above _ hp hne := label_replaceAt root hp hne
  apart _ hq hp := get?_replaceAt_of_apart root hq hp

/-- A branch is put in without a change of what the node is. -/
theorem isGroup_replaceAt_cons (hb : node.branch? b = some child) :
    (node.replaceAt (b :: rest) new).isGroup = node.isGroup := by
  rw [replaceAt_cons hb, isGroup_replaceBranch]

/-! ### What stands above a place -/

@[simp] theorem parent?_nil (root : Condition) : root.parent? [] = none := rfl

theorem isSome_get?_of_prefix (h : root.get? path = some n) (hp : p <+: path) :
    ∃ a, root.get? p = some a := by
  obtain ⟨rest, rfl⟩ := hp
  rw [get?_append, Option.bind_eq_some_iff] at h
  obtain ⟨a, ha, -⟩ := h
  exact ⟨a, ha⟩

/-- A path that leads out of a tree does so at a branch that a node of the tree does not have. -/
theorem exists_missing_branch : ∀ {path : Path} {node : Condition}, node.get? path = none →
    ∃ p b rest a, path = p ++ b :: rest ∧ node.get? p = some a ∧ a.branch? b = none
  | [], node, h => by
    rw [get?_nil] at h
    cases h
  | b :: rest, node, h => by
    cases hb : node.branch? b with
    | none => exact ⟨[], b, rest, node, rfl, get?_nil node, hb⟩
    | some child =>
      rw [get?_cons, hb, Option.bind_some] at h
      obtain ⟨p, b', rest', a, hrest, ha, hb'⟩ := exists_missing_branch h
      exact ⟨b :: p, b', rest', a, by rw [hrest]; rfl, get?_cons_eq_some_iff.mpr ⟨child, hb, ha⟩, hb'⟩

/-- Of all places, the root alone has nothing above it. -/
theorem parent?_eq_none_iff (h : root.get? path = some n) : root.parent? path = none ↔ path = [] := by
  constructor
  · intro hp
    by_contra hne
    obtain ⟨a, ha⟩ := isSome_get?_of_prefix h (List.dropLast_prefix path)
    rw [parent?, if_neg hne, ha] at hp
    cases hp
  · rintro rfl
    rfl

/-- Below a branch, the node itself stands above the child and the child's nodes above all else. -/
theorem parent?_cons (hb : node.branch? b = some child) (hn : child.get? rest = some n) :
    node.parent? (b :: rest) = (child.parent? rest).or (some node) := by
  cases rest with
  | nil => simp [parent?]
  | cons b' rest =>
    obtain ⟨a, ha⟩ := isSome_get?_of_prefix hn (List.dropLast_prefix (b' :: rest))
    have hchild : child.parent? (b' :: rest) = some a := by
      rw [parent?, if_neg (List.cons_ne_nil _ _), ha]
    have hnode : node.parent? (b :: b' :: rest) = some a := by
      rw [parent?, if_neg (List.cons_ne_nil _ _), List.dropLast_cons_cons]
      exact get?_cons_eq_some_iff.mpr ⟨child, hb, ha⟩
    rw [hnode, hchild, Option.some_or]

theorem nonGroupAbove?_cons (hb : node.branch? b = some child) : node.nonGroupAbove? (b :: rest) =
    ((child.nonGroupAbove? rest).map (b :: ·)).or (if node.isGroup then none else some []) := by
  have hfilter : ((rest.above.map (b :: ·)).filter fun p => (node.get? p).any fun c => !c.isGroup) =
      (rest.above.filter fun p => (child.get? p).any fun c => !c.isGroup).map (b :: ·) := by
    rw [List.filter_map]
    refine congrArg _ (List.filter_congr fun p _ => ?_)
    simp [hb]
  rw [nonGroupAbove?, Path.above_cons, List.filter_cons, hfilter]
  cases hg : node.isGroup with
  | true => simp [nonGroupAbove?, hg]
  | false => simp [nonGroupAbove?, hg, List.getLast?_cons]

/-- Nothing but groups is above a place if the node is one and nothing but groups is above it from the branch on. -/
theorem nonGroupAbove?_cons_eq_none_iff (hb : node.branch? b = some child) :
    node.nonGroupAbove? (b :: rest) = none ↔ node.isGroup ∧ child.nonGroupAbove? rest = none := by
  rw [nonGroupAbove?_cons hb]
  cases hg : node.isGroup <;> simp

/-- Below the node that `nonGroupAbove?` finds, groups lead all the way to the place. -/
theorem exists_of_nonGroupAbove?_eq_some : ∀ {path A : Path} {node n : Condition},
    node.get? path = some n → node.nonGroupAbove? path = some A →
      ∃ a b child rest, path = A ++ b :: rest ∧ node.get? A = some a ∧ a.isGroup = false ∧
        a.branch? b = some child ∧ child.get? rest = some n ∧ child.nonGroupAbove? rest = none
  | [], A, node, n, _, h => by simp [nonGroupAbove?] at h
  | b :: rest, A, node, n, hn, h => by
    obtain ⟨child, hb, hchild⟩ := get?_cons_eq_some_iff.mp hn
    rw [nonGroupAbove?_cons hb] at h
    cases hA : child.nonGroupAbove? rest with
    | some B =>
      rw [hA, Option.map_some, Option.some_or, Option.some.injEq] at h
      subst h
      obtain ⟨a, b', child', rest', hrest, ha, hrem⟩ := exists_of_nonGroupAbove?_eq_some hchild hA
      exact ⟨a, b', child', rest', by rw [hrest]; rfl, get?_cons_eq_some_iff.mpr ⟨child, hb, ha⟩, hrem⟩
    | none =>
      rw [hA, Option.map_none, Option.none_or, Option.ite_none_left_eq_some] at h
      obtain ⟨hg, hA'⟩ := h
      cases hA'
      exact ⟨node, b, child, rest, rfl, get?_nil node, by simpa using hg, hb, hchild, hA⟩

end Condition

end ConditionTree
