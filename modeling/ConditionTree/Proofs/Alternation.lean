import ConditionTree.Proofs.Places

/-!
# Alternating trees

In a tree that alternates, the connective of each node follows from the connective of the whole: boolean nodes take the
one of their context, and brackets turn it into the other one for all that they hold. `align` computes the one
alternating tree on the skeleton of a tree (`eq_align_iff`), where the skeleton is all but the connectives that stand
outside of comparisons.

Everything else about `align` comes from this: a tree that alternates already stays, the last of several alignments
decides, and two trees are aligned to the same one exactly if they have the same skeleton. To set the connective of a
root that is no group is to align the whole tree (`Editor.apply_setConnective_root`).
-/

namespace ConditionTree

namespace Condition

/-- The connectives follow from that of the context. Boolean nodes have it and hand it on, groups have its complement
and hand that on; comparisons and leaves fit any context, whatever stands in them. -/
def Alternating (context : Connective) : Condition → Prop
  | number _ | reference _ | comparison _ _ _ => True
  | boolean o l r => o = context ∧ l.Alternating context ∧ r.Alternating context
  | group o child => o = context.complement ∧ child.Alternating context.complement

instance decidableAlternating (context : Connective) : DecidablePred (Alternating context)
  | number _ | reference _ | comparison _ _ _ => inferInstanceAs (Decidable True)
  | boolean o l r =>
    have := decidableAlternating context l
    have := decidableAlternating context r
    inferInstanceAs (Decidable (o = context ∧ l.Alternating context ∧ r.Alternating context))
  | group o child =>
    have := decidableAlternating context.complement child
    inferInstanceAs (Decidable (o = context.complement ∧ child.Alternating context.complement))

/-- Two trees differ in nothing but connectives outside of comparisons: they have the same places with nodes of the same
kinds in them, and the same comparisons and leaves there. -/
structure SameSkeleton (c d : Condition) : Prop where
  kind : ∀ p, (d.get? p).map kind = (c.get? p).map kind
  rest : ∀ p n, n.connective? = none → c.get? p = some n → d.get? p = some n

/-- The tree with the other connective in each node that has one, outside of comparisons. -/
def flipped : Condition → Condition
  | boolean o l r => boolean o.complement l.flipped r.flipped
  | group o child => group o.complement child.flipped
  | c => c

variable {c d t l r child : Condition} {b : Branch} {o : Connective}

/-! ### Skeletons -/

theorem connective?_eq_none_of_kind (h : c.kind = d.kind) : c.connective? = none ↔ d.connective? = none := by
  cases c <;> cases d <;> simp [kind, connective?] at h ⊢

namespace SameSkeleton

theorem refl (c : Condition) : c.SameSkeleton c :=
  ⟨fun _ => rfl, fun _ _ _ h => h⟩

theorem symm (h : c.SameSkeleton d) : d.SameSkeleton c := by
  refine ⟨fun p => (h.kind p).symm, fun p m hm hd => ?_⟩
  obtain ⟨n, hn, hkind⟩ : ∃ n, c.get? p = some n ∧ n.kind = m.kind := by
    have hp := h.kind p
    rw [hd, Option.map_some] at hp
    exact Option.map_eq_some_iff.mp hp.symm
  have hsame : d.get? p = some n := h.rest p n ((connective?_eq_none_of_kind hkind).mpr hm) hn
  rw [hn, ← hsame, hd]

theorem trans (h : c.SameSkeleton d) (h' : d.SameSkeleton t) : c.SameSkeleton t :=
  ⟨fun p => (h'.kind p).trans (h.kind p), fun p n hn hc => h'.rest p n hn (h.rest p n hn hc)⟩

/-- The skeletons of the branches are the same where those of the trees are. -/
theorem branch (h : c.SameSkeleton d) (hb : c.branch? b = some l) :
    ∃ l', d.branch? b = some l' ∧ l.SameSkeleton l' := by
  have hkind := h.kind [b]
  cases hd : d.branch? b with
  | none => simp [hb, hd] at hkind
  | some l' =>
    refine ⟨l', rfl, fun p => ?_, fun p n hn hl => ?_⟩
    · simpa [hb, hd] using h.kind (b :: p)
    · simpa [hd] using h.rest (b :: p) n hn (by simpa [hb] using hl)

/-- Comparisons and leaves belong to the skeleton as a whole. -/
theorem eq_of_connective? (h : c.SameSkeleton d) (hc : c.connective? = none) : d = c := by
  simpa using h.rest [] c hc (get?_nil c)

theorem kind_eq (h : c.SameSkeleton d) : d.kind = c.kind := by
  simpa using h.kind []

theorem congr_boolean (o o' : Connective) {l' r' : Condition} (hl : l.SameSkeleton l') (hr : r.SameSkeleton r') :
    (boolean o l r).SameSkeleton (boolean o' l' r') := by
  constructor
  · rintro (_ | ⟨_ | _ | _, p⟩)
    · rfl
    · exact hl.kind p
    · exact hr.kind p
    · rfl
  · rintro (_ | ⟨_ | _ | _, p⟩) n hn h
    · cases h; cases hn
    · exact hl.rest p n hn h
    · exact hr.rest p n hn h
    · cases h

theorem congr_group (o o' : Connective) {child' : Condition} (h : child.SameSkeleton child') :
    (group o child).SameSkeleton (group o' child') := by
  constructor
  · rintro (_ | ⟨_ | _ | _, p⟩)
    · rfl
    · rfl
    · rfl
    · exact h.kind p
  · rintro (_ | ⟨_ | _ | _, p⟩) n hn hp
    · cases hp; cases hn
    · cases hp
    · cases hp
    · exact h.rest p n hn hp

end SameSkeleton

/-! ### Alignment -/

theorem alternating_align (c : Condition) (o : Connective) : (c.align o).Alternating o := by
  induction c generalizing o with
  | boolean _ l r ihl ihr => exact ⟨rfl, ihl o, ihr o⟩
  | group _ child ih => exact ⟨rfl, ih o.complement⟩
  | number | reference | comparison => trivial

theorem sameSkeleton_align (c : Condition) (o : Connective) : c.SameSkeleton (c.align o) := by
  induction c generalizing o with
  | boolean o' l r ihl ihr => exact .congr_boolean o' o (ihl o) (ihr o)
  | group o' child ih => exact .congr_group o' o.complement (ih o.complement)
  | number | reference | comparison => exact .refl _

theorem align_of_alternating (h : c.Alternating o) : c.align o = c := by
  induction c generalizing o with
  | boolean _ l r ihl ihr =>
    obtain ⟨rfl, hl, hr⟩ := h
    rw [align, ihl hl, ihr hr]
  | group _ child ih =>
    obtain ⟨rfl, hchild⟩ := h
    rw [align, ih hchild]
  | number | reference | comparison => rfl

/-- Alignment reads nothing but the skeleton. -/
theorem align_congr (h : c.SameSkeleton d) (o : Connective) : c.align o = d.align o := by
  induction c generalizing d o with
  | boolean _ l r ihl ihr =>
    obtain ⟨l', hl', hl⟩ := h.branch (b := .left) rfl
    obtain ⟨r', hr', hr⟩ := h.branch (b := .right) rfl
    cases d with
    | boolean _ _ _ =>
      cases hl'
      cases hr'
      rw [align, align, ihl hl o, ihr hr o]
    | _ => cases h.kind_eq
  | group _ child ih =>
    obtain ⟨child', hchild', hchild⟩ := h.branch (b := .child) rfl
    cases d with
    | group _ _ =>
      cases hchild'
      rw [align, align, ih hchild o.complement]
    | _ => cases h.kind_eq
  | number | reference | comparison => rw [h.eq_of_connective? rfl]

/-- **Alignment gives the one tree on a skeleton that alternates.** -/
theorem eq_align_iff : t = c.align o ↔ t.Alternating o ∧ c.SameSkeleton t := by
  constructor
  · rintro rfl
    exact ⟨alternating_align c o, sameSkeleton_align c o⟩
  · rintro ⟨halternating, hskeleton⟩
    calc t
      _ = t.align o := (align_of_alternating halternating).symm
      _ = c.align o := (align_congr hskeleton o).symm

theorem align_eq_self_iff : c.align o = c ↔ c.Alternating o :=
  ⟨fun h => h ▸ alternating_align c o, align_of_alternating⟩

/-- The last of two alignments decides. -/
theorem align_align (c : Condition) (o o' : Connective) : (c.align o).align o' = c.align o' :=
  (align_congr (sameSkeleton_align c o) o').symm

/-- Trees are aligned to the same one exactly if they have the same skeleton. -/
theorem align_eq_align_iff : c.align o = d.align o ↔ c.SameSkeleton d := by
  constructor
  · intro h
    have hc := sameSkeleton_align c o
    rw [h] at hc
    exact hc.trans (sameSkeleton_align d o).symm
  · exact fun h => align_congr h o

theorem align_complement (c : Condition) (o : Connective) : c.align o.complement = (c.align o).flipped := by
  induction c generalizing o with
  | boolean _ l r ihl ihr => rw [align, align, flipped, ihl, ihr]
  | group _ child ih => rw [align, align, flipped, ih]
  | number | reference | comparison => rfl

end Condition

open Condition

/-! ### Choices for the whole tree -/

namespace Editor

/-- The connective of a root that is no group is chosen for the whole tree, and the session remembers it. -/
theorem apply_setConnective_root {c : Condition} (e : Editor) (o : Connective) (h : c.isGroup = false) :
    e.apply c [] (.setConnective o) = ((e.changeOperator o c).1, .ok (some (e.changeOperator o c).2)) := by
  cases c with
  | group => cases h
  | _ => simp [apply, editAt, editNode, setGroupOperator?, remember, changeOperator, isGroup]

theorem changeOperator_changeOperator (e : Editor) (c : Condition) (o o' : Connective) :
    (e.changeOperator o c).1.changeOperator o' (e.changeOperator o c).2 = e.changeOperator o' c :=
  congrArg (Prod.mk _) (align_align c o o')

/-- The last of two choices decides, for brackets around the whole tree as well. -/
theorem exists_apply_setConnective_twice (e : Editor) (c : Condition) (o o' : Connective) :
    ∃ t, (e.apply c [] (.setConnective o)).2 = .ok (some t) ∧
      (e.apply c [] (.setConnective o)).1.apply t [] (.setConnective o') = e.apply c [] (.setConnective o') := by
  cases hc : c.isGroup with
  | false =>
    have hagain : (e.changeOperator o c).2.isGroup = false := (isGroup_align o c).trans hc
    refine ⟨(e.changeOperator o c).2, ?_, ?_⟩
    · rw [e.apply_setConnective_root o hc]
    · rw [e.apply_setConnective_root o hc, e.apply_setConnective_root o' hc, apply_setConnective_root _ o' hagain,
        changeOperator_changeOperator]
  | true =>
    cases c with
    | group _ child =>
      refine ⟨_, rfl, ?_⟩
      simp [apply, editAt, editNode, setGroupOperator?, remember, Session.observe, align_align]
    | _ => cases hc

end Editor

/-- **Alignment computes the alternating tree on a skeleton**, and no other tree alternates there. So it returns a tree
that alternates as it is, the last of several alignments decides, trees with the same skeleton are the ones that are
aligned alike, and the other connective for the whole flips all connectives. A choice for the whole tree that follows
another one leaves no trace of that one, neither in the tree nor in the session. It is what setting the connective of a
root comes to, unless the root is a group, and there the last of two choices decides as well. -/
theorem align_computes_alternating_tree (c d : Condition) (o o' : Connective) (e : Editor) :
    (∀ t, t = c.align o ↔ t.Alternating o ∧ c.SameSkeleton t) ∧
    (c.align o = c ↔ c.Alternating o) ∧
    (c.align o).align o' = c.align o' ∧
    (c.align o = d.align o ↔ c.SameSkeleton d) ∧
    c.align o.complement = (c.align o).flipped ∧
    (e.changeOperator o c).1.changeOperator o' (e.changeOperator o c).2 = e.changeOperator o' c ∧
    (c.isGroup = false →
      e.apply c [] (.setConnective o) = ((e.changeOperator o c).1, .ok (some (e.changeOperator o c).2))) ∧
    ∃ t, (e.apply c [] (.setConnective o)).2 = .ok (some t) ∧
      (e.apply c [] (.setConnective o)).1.apply t [] (.setConnective o') = e.apply c [] (.setConnective o') := by
  refine ⟨fun t => eq_align_iff, align_eq_self_iff, align_align c o o', align_eq_align_iff,
    align_complement c o, ?_, fun hroot => ?_, ?_⟩
  · exact e.changeOperator_changeOperator c o o'
  · exact e.apply_setConnective_root o hroot
  · exact e.exists_apply_setConnective_twice c o o'

/-- A row beside brackets of the same polarity. -/
def Condition.unalternating : Condition :=
  boolean .and emptyComparison (group .and emptyComparison)

/-- The choice of the connective that the root has already turns the brackets, and is remembered. -/
theorem chosen_connective_turns_brackets :
    unalternating.isGroup = false ∧
    (default : Editor).apply unalternating [] (.setConnective .and) =
      (⟨default, ⟨some .and⟩⟩, .ok (some (boolean .and emptyComparison (group .or emptyComparison)))) := by
  obtain ⟨-, -, -, -, -, -, hroot, -⟩ := align_computes_alternating_tree unalternating unalternating .and .or default
  exact ⟨rfl, hroot rfl⟩

end ConditionTree
