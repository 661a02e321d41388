import ConditionTree.Proofs.Leaves

/-!
# The nodes of a tree in order

`walk` lists each node of a tree with the path that finds it, and no other pairs (`mem_walk_iff`). The paths come in the
order of display: a node before those below it, and what is on the left of a node before what is on its right
(`pairwise_walk`). So no path is listed twice, and what is gathered node by node along the walk comes in the order of
the nodes.
-/

namespace ConditionTree

namespace Path

/-- The first path comes before the second in the order of display: it ends above the other's end, or leads to the left
where the two part. -/
def Precedes (p q : Path) : Prop :=
  (p <+: q ∧ p ≠ q) ∨ p.isBefore q

variable {b : Branch} {p q : Path}

@[simp] theorem isBefore_self (p : Path) : p.isBefore p = false := by
  induction p with
  | nil => rfl
  | cons b p ih => rwa [isBefore_cons_self]

/-- What two paths have in common says nothing about their order. -/
@[simp] theorem append_isBefore_append (r p q : Path) : (r ++ p).isBefore (r ++ q) = p.isBefore q := by
  induction r with
  | nil => rfl
  | cons b r ih => rwa [List.cons_append, List.cons_append, isBefore_cons_self]

theorem nil_precedes_cons (b : Branch) (p : Path) : Precedes [] (b :: p) :=
  .inl ⟨List.nil_prefix, (List.cons_ne_nil b p).symm⟩

theorem left_precedes_right (p q : Path) : Precedes (.left :: p) (.right :: q) :=
  .inr rfl

theorem Precedes.cons (b : Branch) (h : p.Precedes q) : Precedes (b :: p) (b :: q) := by
  rcases h with ⟨habove, hne⟩ | h
  · exact .inl ⟨List.cons_prefix_cons.mpr ⟨rfl, habove⟩, fun heq => hne (List.cons_eq_cons.mp heq).2⟩
  · exact .inr (by rwa [isBefore_cons_self])

theorem not_precedes_self (p : Path) : ¬ p.Precedes p := by
  rintro (⟨-, hne⟩ | h)
  · exact hne rfl
  · simp at h

end Path

namespace Condition

variable {c n : Condition} {b : Branch} {p q : Path} {nodes : List (Path × Condition)}

theorem mem_under_iff : (q, n) ∈ under b nodes ↔ ∃ p, (p, n) ∈ nodes ∧ b :: p = q := by
  simp [under]

/-- **The walk lists the nodes that paths find.** -/
theorem mem_walk_iff : (p, n) ∈ c.walk ↔ c.get? p = some n := by
  induction c generalizing p with
  | number | reference => cases p <;> simp [walk, branch?, eq_comm]
  | comparison _ l r ihl ihr | boolean _ l r ihl ihr =>
    rcases p with _ | ⟨_ | _ | _, p⟩ <;> simp [walk, mem_under_iff, branch?, ihl, ihr, eq_comm]
  | group _ child ih =>
    rcases p with _ | ⟨_ | _ | _, p⟩ <;> simp [walk, mem_under_iff, branch?, ih, eq_comm]

theorem pairwise_under (h : nodes.Pairwise fun x y => x.1.Precedes y.1) (b : Branch) :
    (under b nodes).Pairwise fun x y => x.1.Precedes y.1 :=
  List.pairwise_map.mpr (h.imp fun hxy => hxy.cons b)

theorem nil_precedes_under {x : Path × Condition} (h : x ∈ under b nodes) : Path.Precedes [] x.1 := by
  obtain ⟨p, -, hp⟩ := mem_under_iff.mp h
  rw [← hp]
  exact Path.nil_precedes_cons b p

theorem under_left_precedes_under_right {nodes' : List (Path × Condition)} {x y : Path × Condition}
    (hx : x ∈ under .left nodes) (hy : y ∈ under .right nodes') : x.1.Precedes y.1 := by
  obtain ⟨p, -, hp⟩ := mem_under_iff.mp hx
  obtain ⟨q, -, hq⟩ := mem_under_iff.mp hy
  rw [← hp, ← hq]
  exact Path.left_precedes_right p q

/-- **The walk goes down before it goes on to the right.** -/
theorem pairwise_walk (c : Condition) : c.walk.Pairwise fun x y => x.1.Precedes y.1 := by
  induction c with
  | number | reference => exact List.pairwise_singleton _ _
  | comparison _ l r ihl ihr | boolean _ l r ihl ihr =>
    refine List.pairwise_cons.mpr ⟨fun x hx => ?_, ?_⟩
    · rcases List.mem_append.mp hx with hl | hr
      · exact nil_precedes_under hl
      · exact nil_precedes_under hr
    · exact List.pairwise_append.mpr ⟨pairwise_under ihl .left, pairwise_under ihr .right,
        fun x hx y hy => under_left_precedes_under_right hx hy⟩
  | group _ child ih =>
    exact List.pairwise_cons.mpr ⟨fun x hx => nil_precedes_under hx, pairwise_under ih .child⟩

/-! ### Labels -/

theorem label_below {c' child child' : Condition} (h : ∀ p, (c.get? p).map label = (c'.get? p).map label)
    (hb : c.branch? b = some child) (hb' : c'.branch? b = some child') (p : Path) :
    (child.get? p).map label = (child'.get? p).map label := by
  have hp := h (b :: p)
  rwa [get?_cons, get?_cons, hb, hb'] at hp

/-- A tree is known from the labels at its places. -/
theorem eq_of_label_get? {c' : Condition} (h : ∀ p, (c.get? p).map label = (c'.get? p).map label) : c = c' := by
  have hroot : c.label = c'.label := by simpa using h []
  induction c generalizing c' with
  | number | reference =>
    cases c' <;> cases hroot
    rfl
  | comparison o l r ihl ihr | boolean o l r ihl ihr =>
    cases c' <;> cases hroot
    rename_i l' r'
    have hl := label_below (b := .left) h rfl rfl
    have hr := label_below (b := .right) h rfl rfl
    rw [ihl hl (by simpa using hl []), ihr hr (by simpa using hr [])]
  | group o child ih =>
    cases c' <;> cases hroot
    rename_i child'
    have hchild := label_below (b := .child) h rfl rfl
    rw [ih hchild (by simpa using hchild [])]

/-- A tree is known from the labels along its walk. -/
theorem eq_of_map_label_walk {c' : Condition}
    (h : c.walk.map (fun x => (x.1, x.2.label)) = c'.walk.map fun x => (x.1, x.2.label)) : c = c' := by
  have hmem : ∀ {c : Condition} {p l}, (c.get? p).map label = some l ↔ (p, l) ∈ c.walk.map fun x => (x.1, x.2.label) :=
    fun {c p l} => by simp [mem_walk_iff]
  refine eq_of_label_get? fun p => Option.ext fun l => ?_
  rw [hmem, hmem, h]

/-! ### The number of nodes -/

theorem nodeCount_comparison (o : Comparator) (l r : Condition) :
    (comparison o l r).nodeCount = l.nodeCount + r.nodeCount + 1 := by
  simp [nodeCount, walk, under]

theorem nodeCount_boolean (o : Connective) (l r : Condition) :
    (boolean o l r).nodeCount = l.nodeCount + r.nodeCount + 1 := by
  simp [nodeCount, walk, under]

theorem nodeCount_group (o : Connective) (child : Condition) :
    (group o child).nodeCount = child.nodeCount + 1 := by
  simp [nodeCount, walk, under]

end Condition

end ConditionTree
