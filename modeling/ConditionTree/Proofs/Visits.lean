import ConditionTree.Proofs.Figures
import Mathlib.Data.List.Lex

/-!
# Visits of a tree

A visit goes down from a place by the branches that each node has, in their order, and takes the path along. Whatever the
visitor does, it is told of the nodes of the walk (`visitFrom_eq`). The walk is sorted: what stands where in it is known
from the paths, which are compared as words of branches (`lt_iff_lex`). And it holds all there is to know of a tree, for
trees are equal exactly if the same is read off the nodes along both (`equal_iff_forall₂_walk`).
-/

namespace ConditionTree

universe u

/-- The one branch is on the left of the other. -/
def Branch.IsLeftOf (b b' : Branch) : Prop :=
  b = .left ∧ b' = .right

instance : Std.Asymm Branch.IsLeftOf :=
  ⟨fun _ _ h h' => by cases h.1.symm.trans h'.2⟩

namespace Path

variable {p q : Path}

/-- The first path leads to the left where the two part. -/
theorem isBefore_iff : p.isBefore q ↔ ∃ r p' q', p = r ++ .left :: p' ∧ q = r ++ .right :: q' := by
  constructor
  · intro h
    fun_induction isBefore p q with
    | case1 p q => exact ⟨[], p, q, rfl, rfl⟩
    | case2 b p b' q _ ih =>
      obtain ⟨hb, hbelow⟩ : b = b' ∧ isBefore p q := by simpa using h
      obtain ⟨r, p', q', rfl, rfl⟩ := ih hbelow
      exact ⟨b :: r, p', q', rfl, by rw [hb]; rfl⟩
    | case3 => cases h
  · rintro ⟨r, p', q', rfl, rfl⟩
    rw [append_isBefore_append]
    rfl

/-- The order of display is the one of words. -/
theorem lex_iff_precedes : List.Lex Branch.IsLeftOf p q ↔ p.Precedes q := by
  constructor
  · intro h
    induction h with
    | nil => exact nil_precedes_cons _ _
    | cons _ ih => exact ih.cons _
    | rel h =>
      obtain ⟨rfl, rfl⟩ := h
      exact left_precedes_right _ _
  · rintro (⟨⟨s, rfl⟩, hne⟩ | h)
    · cases s with
      | nil => exact absurd (List.append_nil p).symm hne
      | cons b s => simpa using List.Lex.append_left Branch.IsLeftOf (List.Lex.nil (a := b) (l := s)) p
    · obtain ⟨r, p', q', rfl, rfl⟩ := isBefore_iff.mp h
      exact List.Lex.append_left _ (.rel ⟨rfl, rfl⟩) r

end Path

/-- Labels are equal as the nodes are, numbers by their values. -/
def Label.equal : Label → Label → Bool
  | number x, number y => x.equal y
  | l, l' => l == l'

namespace Condition

variable {c c' n : Condition} {p q : Path} {x y : Path × Condition} {nodes nodes' : List (Path × Condition)}

/-! ### Visits -/

/-- A visit from a place on: the visitor is told of the node there, and then of what is below each branch that the node
has. -/
def visitFrom {σ : Type u} (visitor : σ → Path → Condition → σ) (path : Path) (c : Condition) (seen : σ) : σ :=
  c.branches.foldl (fun seen b =>
    match _h : c.branch? b with
    | some child => child.visitFrom visitor (path ++ [b]) seen
    | none => seen) (visitor seen path c)
termination_by sizeOf c
decreasing_by
  cases branch?_eq_some_iff.mp _h <;> simp <;> omega

/-- **A visitor is told of the walk.** The paths begin with the one that the visit began at. -/
theorem visitFrom_eq {σ : Type u} (visitor : σ → Path → Condition → σ) (path : Path) (c : Condition) (seen : σ) :
    c.visitFrom visitor path seen = c.walk.foldl (fun seen x => visitor seen (path ++ x.1) x.2) seen := by
  induction c generalizing path seen with
  | number | reference =>
    rw [visitFrom]
    simp [branches, walk]
  | comparison o l r ihl ihr | boolean o l r ihl ihr =>
    rw [visitFrom]
    simp [branches, branch?, walk, under, ihl, ihr, List.foldl_map]
  | group o child ih =>
    rw [visitFrom]
    simp [branches, branch?, walk, under, ih, List.foldl_map]

/-! ### Positions -/

/-- **The walk is sorted.** -/
theorem lt_iff_lex {i j : Nat} (hi : c.walk[i]? = some x) (hj : c.walk[j]? = some y) :
    i < j ↔ List.Lex Branch.IsLeftOf x.1 y.1 := by
  -- for all pairs, since the way back needs it for the two positions exchanged
  have hsorted : ∀ {i j : Nat} {x y}, c.walk[i]? = some x → c.walk[j]? = some y → i < j →
      List.Lex Branch.IsLeftOf x.1 y.1 := by
    intro i j x y hi hj hlt
    obtain ⟨hi', rfl⟩ := List.getElem?_eq_some_iff.mp hi
    obtain ⟨hj', rfl⟩ := List.getElem?_eq_some_iff.mp hj
    exact Path.lex_iff_precedes.mpr (List.pairwise_iff_getElem.mp (pairwise_walk c) i j hi' hj' hlt)
  refine ⟨hsorted hi hj, fun h => ?_⟩
  rcases Nat.lt_trichotomy i j with hlt | heq | hgt
  · exact hlt
  · subst heq
    cases hi.symm.trans hj
    exact absurd h (asymm h)
  · exact absurd h (asymm (hsorted hj hi hgt))

/-! ### Equal trees -/

/-- The same is read off two nodes of a walk: the path, the kind, and the operator, number or series. -/
def ReadsAlike (x y : Path × Condition) : Prop :=
  x.1 = y.1 ∧ x.2.label.equal y.2.label

theorem forall₂_under (b : Branch) (h : List.Forall₂ ReadsAlike nodes nodes') :
    List.Forall₂ ReadsAlike (under b nodes) (under b nodes') :=
  List.forall₂_map_left_iff.mpr (List.forall₂_map_right_iff.mpr (h.imp fun _ _ hxy => ⟨congrArg (b :: ·) hxy.1, hxy.2⟩))

theorem forall₂_walk_of_equal (h : c.equal c') : List.Forall₂ ReadsAlike c.walk c'.walk := by
  induction c generalizing c' with
  | number | reference =>
    cases c' <;> simp [equal] at h
    simp [walk, ReadsAlike, label, Label.equal, h]
  | comparison o l r ihl ihr | boolean o l r ihl ihr =>
    cases c' <;> simp [equal] at h
    obtain ⟨⟨rfl, hl⟩, hr⟩ := h
    exact .cons ⟨rfl, by simp [label, Label.equal]⟩
      (List.rel_append (forall₂_under .left (ihl hl)) (forall₂_under .right (ihr hr)))
  | group o child ih =>
    cases c' <;> simp [equal] at h
    obtain ⟨rfl, hchild⟩ := h
    exact .cons ⟨rfl, by simp [label, Label.equal]⟩ (forall₂_under .child (ih hchild))

/-- What is read of each node of the one tree is read at its place in the other. -/
def ReadsIn (c c' : Condition) : Prop :=
  ∀ p n, c.get? p = some n → ∃ n', c'.get? p = some n' ∧ n.label.equal n'.label

theorem ReadsIn.root (h : c.ReadsIn c') : c.label.equal c'.label := by
  obtain ⟨n', hn', hlabel⟩ := h [] c (get?_nil c)
  rw [get?_nil] at hn'
  cases hn'
  exact hlabel

theorem ReadsIn.below {b : Branch} {child child' : Condition} (h : c.ReadsIn c') (hb : c.branch? b = some child)
    (hb' : c'.branch? b = some child') : child.ReadsIn child' := by
  intro p n hn
  obtain ⟨n', hn', hlabel⟩ := h (b :: p) n (by rwa [get?_cons, hb])
  rw [get?_cons, hb'] at hn'
  exact ⟨n', hn', hlabel⟩

theorem ReadsIn.equal (h : c.ReadsIn c') : c.equal c' := by
  have hroot := h.root
  -- what is read at the root fixes the kind, so the two have the same branches to go on with
  induction c generalizing c' with
  | number | reference =>
    cases c' <;> simp [label, Label.equal] at hroot
    simp [Condition.equal, hroot]
  | comparison o l r ihl ihr | boolean o l r ihl ihr =>
    cases c' <;> simp [label, Label.equal] at hroot
    have hl := h.below (b := .left) rfl rfl
    have hr := h.below (b := .right) rfl rfl
    simp [Condition.equal, hroot, ihl hl hl.root, ihr hr hr.root]
  | group o child ih =>
    cases c' <;> simp [label, Label.equal] at hroot
    have hchild := h.below (b := .child) rfl rfl
    simp [Condition.equal, hroot, ih hchild hchild.root]

theorem readsIn_of_forall₂_walk (h : List.Forall₂ ReadsAlike c.walk c'.walk) : c.ReadsIn c' := by
  intro p n hn
  obtain ⟨i, hi, hin⟩ := List.mem_iff_getElem.mp (mem_walk_iff.mpr hn)
  have hi' : i < c'.walk.length := h.length_eq ▸ hi
  have hread : ReadsAlike (p, n) c'.walk[i] := hin ▸ h.get hi hi'
  refine ⟨c'.walk[i].2, mem_walk_iff.mp ?_, hread.2⟩
  rw [show p = c'.walk[i].1 from hread.1]
  exact List.getElem_mem hi'

/-- **A tree is known from what is read along its walk.** -/
theorem equal_iff_forall₂_walk : c.equal c' ↔ List.Forall₂ ReadsAlike c.walk c'.walk :=
  ⟨forall₂_walk_of_equal, fun h => (readsIn_of_forall₂_walk h).equal⟩

end Condition

/-- **The walk and the look up by paths tell of one tree.** A visitor is told of the nodes of the walk, with their paths
below the one that it began at. No path stands twice in the walk, and a node stands there with a path exactly if the path
finds it. The walk goes in strict lexicographic order: a path stands before those it begins, and what is below the left
of a node before what is below its right. To look a path up is to look up its beginning and go on from there. And trees
are equal, bit by bit or by value, exactly if their walks read the same. -/
theorem walk_and_get_agree (c : Condition) :
    (∀ {σ : Type u} (visitor : σ → Path → Condition → σ) (path : Path) (seen : σ),
      c.visitFrom visitor path seen = c.walk.foldl (fun seen x => visitor seen (path ++ x.1) x.2) seen) ∧
    (c.walk.map Prod.fst).Nodup ∧
    (∀ p n, (p, n) ∈ c.walk ↔ c.get? p = some n) ∧
    (∀ (i j : Nat) x y, c.walk[i]? = some x → c.walk[j]? = some y →
      (i < j ↔ List.Lex Branch.IsLeftOf x.1 y.1)) ∧
    (∀ p q : Path, List.Lex Branch.IsLeftOf p q ↔
      (p <+: q ∧ p ≠ q) ∨ ∃ r p' q', p = r ++ .left :: p' ∧ q = r ++ .right :: q') ∧
    (∀ p q, c.get? (p ++ q) = (c.get? p).bind (·.get? q)) ∧
    ∀ c' : Condition,
      (c = c' ↔ c.walk.map (fun x => (x.1, x.2.label)) = c'.walk.map fun x => (x.1, x.2.label)) ∧
      (c.equal c' ↔ List.Forall₂ Condition.ReadsAlike c.walk c'.walk) := by
  refine ⟨fun visitor path seen => c.visitFrom_eq visitor path seen, c.nodup_walk_paths, fun _ _ => Condition.mem_walk_iff,
    fun _ _ _ _ hi hj => Condition.lt_iff_lex hi hj, fun p q => ?_, c.get?_append, fun c' => ⟨⟨?_, ?_⟩, ?_⟩⟩
  · rw [Path.lex_iff_precedes, Path.Precedes, Path.isBefore_iff]
  · rintro rfl
    rfl
  · exact Condition.eq_of_map_label_walk
  · exact Condition.equal_iff_forall₂_walk

/-- A threshold of zero in brackets, of either sign. -/
def bracketedZero (negative : Bool) : Condition :=
  .group .or (.comparison .atMost (.reference (some "avg-took_ms")) (.number (.signedZero negative)))

/-- The sides of a comparison stand in their order, and the sign of a zero is no part of what is read of it. -/
theorem walk_of_bracketed_zero :
    (bracketedZero false).walk[2]? = some ([.child, .left], .reference (some "avg-took_ms")) ∧
    (bracketedZero false).walk[3]? = some ([.child, .right], .number (.signedZero false)) ∧
    List.Lex Branch.IsLeftOf [.child, .left] [.child, .right] ∧
    List.Forall₂ Condition.ReadsAlike (bracketedZero false).walk (bracketedZero true).walk ∧
    (bracketedZero false).walk.map (fun x => (x.1, x.2.label)) ≠
      (bracketedZero true).walk.map fun x => (x.1, x.2.label) := by
  obtain ⟨-, -, -, hsorted, -, -, hequal⟩ := walk_and_get_agree.{0} (bracketedZero false)
  obtain ⟨hsame, halike⟩ := hequal (bracketedZero true)
  refine ⟨rfl, rfl, (hsorted 2 3 _ _ rfl rfl).mp (by decide), halike.mp rfl, fun hwalk => ?_⟩
  cases hsame.mpr hwalk

end ConditionTree
