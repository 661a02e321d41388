import ConditionTree.Proofs.Ascent

/-!
# Deletions

A deletion empties its place and, with it, every group right above it up to the first node that is none. A comparison
there cannot do without the side. A boolean node closes up: its other side, the survivor, takes its place, or the place
of the group around it where the survivor is a group itself (`survivorPlace`). With nothing but groups above, nothing
is left (`deletion_closes_up`).
-/

namespace ConditionTree

open Condition

namespace Condition

/-- The place that the survivor of the boolean node at a path takes. -/
def survivorPlace (root : Condition) (path : Path) (survivor : Condition) : Path :=
  if survivor.isGroup ∧ (root.parent? path).any isGroup then path.dropLast else path

variable {root a s : Condition} {A : Path}

@[simp] theorem parent?_concat (root : Condition) (p : Path) (b : Branch) :
    root.parent? (p ++ [b]) = root.get? p := by
  simp [parent?]

theorem exists_get?_survivorPlace (ha : root.get? A = some a) (s : Condition) :
    ∃ c, root.get? (root.survivorPlace A s) = some c := by
  unfold survivorPlace
  split_ifs
  · exact isSome_get?_of_prefix ha (List.dropLast_prefix A)
  · exact ⟨a, ha⟩

/-- **A survivor comes to stand in its place**, and the nodes further up stay what they are. -/
theorem foldAlong_survivor (hg : root.breaches .nestedGroup = 0) (ha : root.get? A = some a) :
    root.foldAlong A (some s) = .ok (some (root.replaceAt (root.survivorPlace A s) s)) := by
  by_cases hmerge : s.isGroup ∧ (root.parent? A).any isGroup
  · obtain ⟨hs, hparent⟩ := hmerge
    -- the group around the node gives way to the survivor, and there is no group above that group
    obtain rfl | ⟨p, b, rfl⟩ := List.eq_nil_or_concat' A
    · cases hparent
    have hplace : root.survivorPlace (p ++ [b]) s = p := by
      rw [survivorPlace, if_pos ⟨hs, hparent⟩, List.dropLast_concat]
    obtain ⟨c, hc, hb⟩ := get?_concat_eq_some_iff.mp ha
    have hcg : c.isGroup := by simpa [hc] using hparent
    have hstep : c.foldAlong [b] (some s) = .ok (some s) := by
      rw [foldAlong_cons hb, foldAlong_nil]
      exact (fold_some hb s).trans (by rw [if_pos ⟨hcg, hs⟩])
    rw [foldAlong_append _ _ hc, hstep, hplace]
    exact foldAlong_some hg hc fun _ d hd => isGroup_parent_of_breaches hg hc hcg hd
  · have hplace : root.survivorPlace A s = A := by
      rw [survivorPlace, if_neg hmerge]
    rw [hplace]
    refine foldAlong_some hg ha fun hs d hd => ?_
    by_contra hdg
    exact hmerge ⟨hs, by rw [Option.mem_def.mp hd]; simpa using hdg⟩

end Condition

variable {e : Editor} {root n : Condition} {path : Path}

/-- **A deletion closes up the tree around what goes.** In a tree without nested groups, a deletion with groups only
above it leaves nothing. Otherwise the nearest node above that is no group loses a branch: a comparison refuses to, and
a boolean node gives way to its other side, which takes its place, or the place of the group around it if it is a group
as well. All else stays. -/
theorem deletion_closes_up (hg : root.breaches .nestedGroup = 0) (hn : root.get? path = some n)
    (hk : n.isOperand = false) :
    (root.nonGroupAbove? path = none → (e.apply root path .delete).2 = .ok none) ∧
    ∀ A, root.nonGroupAbove? path = some A → ∃ b rest, path = A ++ b :: rest ∧
      ((∃ o l r, root.get? A = some (comparison o l r) ∧
          (e.apply root path .delete).2 = .error (.fold (.operandRemoved b))) ∨
        ∃ o l r other s place, root.get? A = some (boolean o l r) ∧ b.sibling? = some other ∧
          root.get? (A ++ [other]) = some s ∧
          place = (if s.isGroup ∧ (root.parent? A).any isGroup then A.dropLast else A) ∧
          (e.apply root path .delete).2 = .ok (some (root.replaceAt place s)) ∧
          root.Replaces place s (root.replaceAt place s)) := by
  constructor
  · intro hnone
    rw [apply_delete hn hk, foldAlong_none_of_groups hn hnone]
    rfl
  · intro A hA
    obtain ⟨b, rest, hpath, ⟨o, l, r, ha, hremoved⟩ | ⟨o, l, r, other, s, ha, hother, hs, hsurvivor⟩⟩ :=
      foldAlong_none hn hA
    · refine ⟨b, rest, hpath, .inl ⟨o, l, r, ha, ?_⟩⟩
      rw [apply_delete hn hk, hremoved]
      rfl
    · obtain ⟨c, hc⟩ := exists_get?_survivorPlace ha s
      refine ⟨b, rest, hpath, .inr ⟨o, l, r, other, s, root.survivorPlace A s, ha, hother, hs, rfl, ?_, ?_⟩⟩
      · rw [apply_delete hn hk, hsurvivor, foldAlong_survivor hg ha]
        rfl
      · exact replaceAt_replaces hc s

/-- The survivor of a deletion inside of brackets takes the place of the brackets, because it stands in brackets of its
own. -/
theorem bracketed_survivor_takes_brackets :
    (boolean .and emptyComparison bracketedRows).breaches .nestedGroup = 0 ∧
    (boolean .and emptyComparison bracketedRows).get? [.right, .child, .right] = some emptyComparison ∧
    emptyComparison.isOperand = false ∧
    (boolean .and emptyComparison bracketedRows).nonGroupAbove? [.right, .child, .right] =
      some [.right, .child] ∧
    (Editor.apply default (boolean .and emptyComparison bracketedRows)
        [.right, .child, .right] .delete).2 =
      .ok (some ((boolean .and emptyComparison bracketedRows).replaceAt [.right]
        (group .and emptyComparison))) ∧
    (boolean .and emptyComparison bracketedRows).Replaces [.right] (group .and emptyComparison)
      (boolean .and emptyComparison (group .and emptyComparison)) := by
  have hg : (boolean .and emptyComparison bracketedRows).breaches .nestedGroup = 0 := rfl
  have hn : (boolean .and emptyComparison bracketedRows).get? [.right, .child, .right] =
    some emptyComparison := rfl
  have hA : (boolean .and emptyComparison bracketedRows).nonGroupAbove? [.right, .child, .right] =
    some [.right, .child] := rfl
  refine ⟨hg, hn, rfl, hA, ?_⟩
  obtain ⟨b, rest, hpath, hcase⟩ := (deletion_closes_up (e := default) hg hn rfl).2 _ hA
  cases hpath
  obtain ⟨o, l, r, hcomparison, -⟩ | ⟨o, l, r, other, s, place, hboolean, hother, hs, hplace, hresult, hreplaces⟩ :=
    hcase
  · cases hcomparison
  · cases hother
    cases hs
    cases hplace
    exact ⟨hresult, hreplaces⟩

end ConditionTree
