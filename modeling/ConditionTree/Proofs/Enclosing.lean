import ConditionTree.Proofs.Ascent

/-!
# The boolean node around a place

`booleanAbove?` looks for the nearest boolean node above a place. Where no comparison stands above, this is the nearest
node that is no group (`booleanAbove?_eq_nonGroupAbove?`), so it is the node that closes up once the place is empty
(`fold_none_of_booleanAbove?`). Where comparisons stand between operands, no comparison stands above a node that
can be deleted (`outsideComparisons_of_breaches`).
-/

namespace ConditionTree

theorem Path.mem_above_iff {p : Path} : ∀ {path : Path}, p ∈ path.above ↔ ∃ b rest, path = p ++ b :: rest
  | [] => by simp
  | b :: path => by
    rw [Path.above_cons, List.mem_cons, List.mem_map]
    constructor
    · rintro (rfl | ⟨q, hq, rfl⟩)
      · exact ⟨b, path, rfl⟩
      · obtain ⟨b', rest, rfl⟩ := Path.mem_above_iff.mp hq
        exact ⟨b', rest, rfl⟩
    · rintro ⟨b', rest, h⟩
      rcases List.append_eq_cons_iff.mp h.symm with ⟨rfl, -⟩ | ⟨q, rfl, hq⟩
      · exact .inl rfl
      · exact .inr ⟨q, Path.mem_above_iff.mpr ⟨b', rest, hq⟩, rfl⟩

namespace Condition

/-- No comparison stands above a place. -/
def OutsideComparisons (root : Condition) (path : Path) : Prop :=
  ∀ p ∈ path.above, (root.get? p).map kind ≠ some .comparison

instance (root : Condition) (path : Path) : Decidable (root.OutsideComparisons path) :=
  inferInstanceAs (Decidable (∀ p ∈ path.above, (root.get? p).map kind ≠ some .comparison))

/-- The longest way to a boolean node above a place. -/
def booleanAbove? (root : Condition) (path : Path) : Option Path :=
  (path.above.filter fun p => (root.get? p).any fun c => c.kind = .boolean).getLast?

variable {root node child n : Condition} {b : Branch} {path A rest : Path}

theorem outsideComparisons_cons (hb : node.branch? b = some child) :
    node.OutsideComparisons (b :: rest) ↔ node.kind ≠ .comparison ∧ child.OutsideComparisons rest := by
  simp [OutsideComparisons, hb]

theorem OutsideComparisons.kind_ne {a : Condition} (h : root.OutsideComparisons (path ++ b :: rest))
    (ha : root.get? path = some a) : a.kind ≠ .comparison := by
  have hkind := h path (Path.mem_above_iff.mpr ⟨b, rest, rfl⟩)
  rw [ha] at hkind
  exact fun hcomparison => hkind (congrArg some hcomparison)

theorem OutsideComparisons.of_append {q : Path} (h : root.OutsideComparisons (path ++ q)) :
    root.OutsideComparisons path := by
  intro p hp
  obtain ⟨b, rest, rfl⟩ := Path.mem_above_iff.mp hp
  exact h p (Path.mem_above_iff.mpr ⟨b, rest ++ q, by rw [List.append_assoc, List.cons_append]⟩)

/-- A node above a place is no operand, so without comparisons it is a boolean node or a group. -/
theorem any_boolean_eq_any_nonGroup (hn : root.get? path = some n) (h : root.OutsideComparisons path) {p : Path}
    (hp : p ∈ path.above) :
    ((root.get? p).any fun c => c.kind = .boolean) = (root.get? p).any fun c => !c.isGroup := by
  obtain ⟨b, rest, rfl⟩ := Path.mem_above_iff.mp hp
  rw [get?_append, Option.bind_eq_some_iff] at hn
  obtain ⟨a, ha, hbelow⟩ := hn
  obtain ⟨child, hb, -⟩ := get?_cons_eq_some_iff.mp hbelow
  have hkind := h.kind_ne ha
  rw [ha]
  cases branch?_eq_some_iff.mp hb with
  | comparisonLeft | comparisonRight => exact absurd rfl hkind
  | booleanLeft | booleanRight | groupChild => rfl

theorem booleanAbove?_eq_nonGroupAbove? (hn : root.get? path = some n) (h : root.OutsideComparisons path) :
    root.booleanAbove? path = root.nonGroupAbove? path := by
  unfold booleanAbove? nonGroupAbove?
  exact congrArg _ (List.filter_congr fun p hp => any_boolean_eq_any_nonGroup hn h hp)

/-- The nearest node above that is no group is the nearest boolean node, if it is a boolean node at all. -/
theorem booleanAbove?_of_nonGroupAbove? {a : Condition} (hA : root.nonGroupAbove? path = some A)
    (ha : root.get? A = some a) (hk : a.kind = .boolean) : root.booleanAbove? path = some A := by
  obtain ⟨front, hfront⟩ := List.getLast?_eq_some_iff.mp hA
  have hfilter : (path.above.filter fun p => (root.get? p).any fun c => c.kind = .boolean) =
      (path.above.filter fun p => (root.get? p).any fun c => !c.isGroup).filter
        fun p => (root.get? p).any fun c => c.kind = .boolean := by
    rw [List.filter_filter]
    refine List.filter_congr fun p _ => ?_
    cases root.get? p with
    | none => rfl
    | some c => cases c <;> rfl
  rw [booleanAbove?, hfilter, hfront, List.filter_append, List.filter_cons_of_pos (by simp [ha, hk]),
    List.filter_nil, List.getLast?_concat]

/-- **The boolean node around an empty place closes up.** Groups lead from it to the place, and its other side is left
over. -/
theorem fold_none_of_booleanAbove? (hn : root.get? path = some n) (h : root.OutsideComparisons path)
    (hA : root.booleanAbove? path = some A) :
    ∃ o l r b child rest s, path = A ++ b :: rest ∧ root.get? A = some (boolean o l r) ∧
      (boolean o l r).branch? b = some child ∧ child.get? rest = some n ∧
      child.nonGroupAbove? rest = none ∧ (boolean o l r).fold b none = .ok (some s) := by
  rw [booleanAbove?_eq_nonGroupAbove? hn h] at hA
  obtain ⟨a, b, child, rest, rfl, ha, hg, hb, hchild, hrest⟩ := exists_of_nonGroupAbove?_eq_some hn hA
  obtain ⟨o, l, r, rfl, -⟩ | ⟨o, l, r, other, s, rfl, -, -, hfold⟩ := fold_none hb hg
  · exact absurd rfl (h.kind_ne ha)
  · exact ⟨o, l, r, b, child, rest, s, rfl, ha, hb, hchild, hrest, hfold⟩

/-- Above a node that is no operand there is no comparison, if comparisons stand between operands. -/
theorem outsideComparisons_of_breaches : ∀ {path : Path} {root n : Condition},
    root.breaches .nonOperand = 0 → root.get? path = some n → n.isOperand = false → root.OutsideComparisons path
  | [], root, n, _, _, _ => by simp [OutsideComparisons]
  | b :: rest, root, n, hroot, hn, hk => by
    obtain ⟨child, hb, hchild⟩ := get?_cons_eq_some_iff.mp hn
    have hle := breaches_branch_le .nonOperand hb
    refine (outsideComparisons_cons hb).mpr ⟨fun hcomparison => ?_, ?_⟩
    · -- the side of a comparison is an operand, which has nothing below it
      cases root with
      | comparison o l r =>
        have hop : child.isOperand := isOperand_of_branch hroot hb
        rw [eq_of_get?_operand hop hchild, hop] at hk
        cases hk
      | _ => cases hcomparison
    · exact outsideComparisons_of_breaches (by omega) hchild hk

end Condition

end ConditionTree
