import ConditionTree.Proofs.Deletion
import ConditionTree.Proofs.Enclosing
import ConditionTree.Proofs.Override
import ConditionTree.Proofs.Sites

/-!
# What an edit depends on

The site of an edit is the node that it is meant for, or for a deletion the boolean node that closes up. Of a valid tree
an edit below the root reads the node at its site and the kinds and operators of the nodes above, and nothing else
(`exists_local_change`): trees that look the same from the site (`SameAt`) come to have the same node in the same place.

So two edits whose sites are apart do not see each other, and it does not matter which of them comes first
(`independent_edits_commute`).
-/

namespace ConditionTree

open Condition

/-! ### Paths apart -/

namespace Path

/-- Neither path leads on from the end of the other. -/
structure Apart (p q : Path) : Prop where
  left : ¬ p <+: q
  right : ¬ q <+: p

variable {p q : Path}

theorem Apart.symm (h : p.Apart q) : q.Apart p := ⟨h.right, h.left⟩

theorem Apart.ne_nil (h : p.Apart q) : p ≠ [] := by
  rintro rfl
  exact h.left List.nil_prefix

end Path

namespace Condition

/-- Two trees look the same from a place: the same node stands there, below nodes of the same kinds and operators. -/
structure SameAt (root root' : Condition) (place : Path) : Prop where
  node : root'.get? place = root.get? place
  above : ∀ p, p <+: place → (root'.get? p).map label = (root.get? p).map label

variable {root root' a c c' m n s : Condition} {A path place q : Path}

/-! ### What a label tells -/

theorem isGroup_of_label (h : c'.label = c.label) : c'.isGroup = c.isGroup := by
  cases c <;> cases c' <;> simp_all [label, isGroup]

theorem connective?_of_label (h : c'.label = c.label) : c'.connective? = c.connective? := by
  cases c <;> cases c' <;> simp_all [label, connective?]

theorem fits_of_label {context : Option Connective} (h : c'.label = c.label) (hf : c.Fits context) :
    c'.Fits context := by
  cases c' with
  | boolean o l r =>
    cases c with
    | boolean o' l' r' =>
      cases h
      exact hf
    | _ => cases h
  | _ => trivial

/-! ### Trees that look the same -/

theorem SameAt.refl (root : Condition) (place : Path) : root.SameAt root place := ⟨rfl, fun _ _ => rfl⟩

theorem SameAt.label (h : root.SameAt root' place) : root'.label = root.label := by
  simpa using h.above [] List.nil_prefix

theorem SameAt.parent (h : root.SameAt root' place) :
    (root'.parent? place).map Condition.label = (root.parent? place).map Condition.label := by
  unfold parent?
  split_ifs
  · rfl
  · exact h.above _ (List.dropLast_prefix place)

/-- A survivor finds its place by what stands above. -/
theorem SameAt.survivorPlace (h : root.SameAt root' place) (s : Condition) :
    root'.survivorPlace place s = root.survivorPlace place s := by
  have hany : (root'.parent? place).any isGroup = (root.parent? place).any isGroup := by
    have hparent := h.parent
    cases hp : root.parent? place with
    | none => cases hp' : root'.parent? place <;> simp_all
    | some a =>
      obtain ⟨a', ha', hlabel⟩ := Option.map_eq_some_iff.mp (hparent.trans (congrArg _ hp))
      rw [ha', Option.any_some, Option.any_some, isGroup_of_label hlabel]
  unfold Condition.survivorPlace
  rw [hany]

/-- What is put into a place apart is not seen. -/
theorem sameAt_replaceAt (root new : Condition) (h : q.Apart place) : root.SameAt (root.replaceAt q new) place where
  node := get?_replaceAt_of_apart root h.right h.left
  above p hp := by
    by_cases hpq : p <+: q
    · have hne : p ≠ q := by
        rintro rfl
        exact h.left hp
      exact label_replaceAt root hpq hne
    · rw [get?_replaceAt_of_apart root hpq fun hqp => h.left (hqp.trans hp)]

/-- A group has one branch. -/
theorem branch_eq_of_isGroup {node child child' : Condition} {b b' : Branch} (hg : node.isGroup)
    (hb : node.branch? b = some child) (hb' : node.branch? b' = some child') : b' = b := by
  cases branch?_eq_some_iff.mp hb with
  | groupChild => cases branch?_eq_some_iff.mp hb'; rfl
  | _ => simp at hg

/-- The brackets around a place have no other place in them, so a survivor stays apart from what its node was apart
from. -/
theorem survivorPlace_apart (ha : root.get? A = some a) (hm : root.get? q = some m) (h : A.Apart q)
    (s : Condition) : (root.survivorPlace A s).Apart q := by
  unfold survivorPlace
  split_ifs with hs
  · obtain ⟨p, b, rfl⟩ := (List.eq_nil_or_concat' A).resolve_left h.ne_nil
    obtain ⟨-, hparent⟩ := hs
    rw [parent?_concat, Option.any_eq_true] at hparent
    obtain ⟨g, hg, hgroup⟩ := hparent
    rw [List.dropLast_concat]
    refine ⟨?_, fun hq => h.right (hq.trans (List.prefix_append p [b]))⟩
    rintro ⟨rest, rfl⟩
    rw [get?_append, hg] at ha hm
    cases rest with
    | nil => exact h.right ⟨[b], by rw [List.append_nil]⟩
    | cons b' rest =>
      obtain ⟨child, hb, -⟩ := get?_cons_eq_some_iff.mp ha
      obtain ⟨child', hb', -⟩ := get?_cons_eq_some_iff.mp hm
      obtain rfl := branch_eq_of_isGroup hgroup hb hb'
      exact h.left ⟨rest, by rw [List.append_assoc, List.singleton_append]⟩
  · exact h

end Condition

/-- The place that an edit acts at: its node, or for a deletion the boolean node that closes up. -/
def Intent.site? (root : Condition) (path : Path) : Intent → Option Path
  | delete => root.booleanAbove? path
  | _ => some path

variable {e e' : Editor} {intent : Intent} {parent parent' : Option Condition} {root root' n : Condition}
  {path s : Path} {new : Option Condition}

theorem site?_of_ne_delete (hi : intent ≠ .delete) : intent.site? root path = some path := by
  cases intent with
  | delete => exact absurd rfl hi
  | _ => rfl

/-! ### The session -/

theorem apply_fst_of_ne_nil (h : path ≠ []) : (e.apply root path intent).1 = e.observed root := by
  obtain ⟨b, rest, rfl⟩ := List.exists_cons_of_ne_nil h
  cases hr : (e.apply root (b :: rest) intent).2 with
  | ok new => rw [apply_fst_of_ok hr, remember_cons]; rfl
  | error error => exact apply_fst_of_error hr

/-- A session that has met a root has nothing to say to another root of the same label. -/
theorem observed_observed (h : root'.label = root.label) : (e.observed root).observed root' = e.observed root := by
  have hfits : root'.Fits (e.session.observe root).override := fits_of_label h (fits_observe e.session root)
  exact congrArg (Editor.mk e.defaults) (observe_eq_self hfits)

/-! ### The change at a site -/

/-- The change of a node is the same below parents of the same label, if additions join with the connective of the
parent. -/
theorem editNode_congr (hd : e'.defaults = e.defaults) (hl : parent'.map label = parent.map label)
    (hc : n.isOperand = false → ∃ o, parent.bind connective? = some o) :
    e'.editNode intent parent' path n = e.editNode intent parent path n := by
  have hconnective : parent'.bind connective? = parent.bind connective? := by
    cases parent <;> cases parent' <;> simp_all
    exact connective?_of_label hl
  have heffective (hk : n.isOperand = false) : e'.effective parent' n = e.effective parent n := by
    obtain ⟨o, ho⟩ := hc hk
    rw [effective_of_context (hconnective.trans ho), effective_of_context ho]
  cases intent with
  | addExpression | addGroup =>
    cases hk : n.isOperand with
    | true => simp [Editor.editNode, hk]
    | false =>
      simp [Editor.editNode, hk, Editor.addSibling, Editor.addGroup, heffective hk, hd]
  | setConnective o =>
    have hnone : parent'.isNone = parent.isNone := by
      cases parent <;> cases parent' <;> simp_all
    simp only [Editor.editNode, hnone]
  | _ => rfl

/-- Below the root of a valid tree, what can be added to stands below a boolean node or a group. -/
theorem exists_connective_of_breaches (hroot : root.breaches .nonOperand = 0) (hn : root.get? path = some n)
    (hk : n.isOperand = false) (hne : path ≠ []) : ∃ o, (root.parent? path).bind connective? = some o := by
  have hout := outsideComparisons_of_breaches hroot hn hk
  obtain ⟨p, b, rfl⟩ := (List.eq_nil_or_concat' path).resolve_left hne
  obtain ⟨a, ha, hb⟩ := get?_concat_eq_some_iff.mp hn
  rw [parent?_concat, ha]
  cases branch?_eq_some_iff.mp hb with
  | comparisonLeft | comparisonRight => exact absurd rfl (hout.kind_ne ha)
  | booleanLeft o | booleanRight o | groupChild o => exact ⟨o, rfl⟩

theorem isOperand_of_apply_delete (hn : root.get? path = some n)
    (h : (e.apply root path .delete).2 = .ok new) : n.isOperand = false := by
  obtain ⟨n', update, hn', hsite, -⟩ := exists_site_of_apply h
  cases hn.symm.trans hn'
  cases hsite with
  | delete hk => exact hk

/-- **An edit below the root depends on its site alone.** There is a node which it puts there in every tree that looks
the same from the site, whatever the session remembers. -/
theorem exists_local_change (hroot : root.breaches .nonOperand = 0) (h : (e.apply root path intent).2 = .ok new)
    (hs : intent.site? root path = some s) (hne : s ≠ []) :
    (∃ a, root.get? s = some a) ∧ ∃ c, ∀ (e' : Editor) (root' : Condition), e'.defaults = e.defaults →
      root'.breaches .nestedGroup = 0 → root.SameAt root' s →
        (e'.apply root' path intent).2 = .ok (some (root'.replaceAt (root.survivorPlace s c) c)) := by
  obtain ⟨n, update, hn, hsite, -⟩ := exists_site_of_apply h
  by_cases hi : intent = .delete
  · subst hi
    have hk := isOperand_of_apply_delete hn h
    have hout := outsideComparisons_of_breaches hroot hn hk
    obtain ⟨o, l, r, b, child, rest, t, rfl, ha, hb, hchild, hgroups, hfold⟩ :=
      fold_none_of_booleanAbove? hn hout hs
    refine ⟨⟨_, ha⟩, t, fun e' root' _ hroot' hsame => ?_⟩
    have ha' := hsame.node.trans ha
    have hn' : root'.get? (s ++ b :: rest) = some n := by
      rw [get?_append, ha', ← ha, ← get?_append, hn]
    rw [apply_delete hn' hk, foldAlong_none_append ha' hb hchild hgroups, hfold, Except.bind,
      foldAlong_survivor hroot' ha', hsame.survivorPlace]
    rfl
  · rw [site?_of_ne_delete hi] at hs
    cases hs
    obtain ⟨c, rfl, -, -⟩ := hsite.makes hi hn
    refine ⟨⟨n, hn⟩, c, fun e' root' hd hroot' hsame => ?_⟩
    have hn' := hsame.node.trans hn
    have hchange : (e.observed root).editNode intent (root.parent? path) path n = .ok (some c) :=
      editNode_eq_ok_iff.mpr hsite
    have hchange' : (e'.observed root').editNode intent (root'.parent? path) path n = .ok (some c) := by
      rw [← hchange]
      exact editNode_congr hd hsame.parent fun hk => exists_connective_of_breaches hroot hn hk hne
    rw [apply_of_get? hn', hchange', Except.bind, foldAlong_survivor hroot' hn', hsame.survivorPlace]
    rfl

theorem path_ne_nil_of_site? (hs : intent.site? root path = some s) (hne : s ≠ []) : path ≠ [] := by
  rintro rfl
  by_cases hi : intent = .delete
  · subst hi
    cases hs
  · rw [site?_of_ne_delete hi] at hs
    cases hs
    exact hne rfl

variable {path₁ path₂ s₁ s₂ : Path} {intent₁ intent₂ : Intent} {new₁ new₂ : Option Condition}

/-- **Edits at sites apart commute.** If two edits of a valid tree both succeed and neither site is at or below the
other, then each succeeds after the other as well, and in both orders they come to the same tree and the same
session. -/
theorem independent_edits_commute (hp : e.defaults.placeholder.IsRow) (hv : root.validate = [])
    (h₁ : (e.apply root path₁ intent₁).2 = .ok new₁) (h₂ : (e.apply root path₂ intent₂).2 = .ok new₂)
    (hs₁ : intent₁.site? root path₁ = some s₁) (hs₂ : intent₂.site? root path₂ = some s₂)
    (h₁₂ : ¬ s₁ <+: s₂) (h₂₁ : ¬ s₂ <+: s₁) :
    ∃ t₁ t₂ e' t, new₁ = some t₁ ∧ new₂ = some t₂ ∧
      (e.apply root path₁ intent₁).1.apply t₁ path₂ intent₂ = (e', .ok (some t)) ∧
      (e.apply root path₂ intent₂).1.apply t₂ path₁ intent₁ = (e', .ok (some t)) := by
  have hapart : s₁.Apart s₂ := ⟨h₁₂, h₂₁⟩
  have hoperand := validate_eq_nil_iff.mp hv .nonOperand
  have hnested := validate_eq_nil_iff.mp hv .nestedGroup
  obtain ⟨⟨a₁, ha₁⟩, c₁, hlocal₁⟩ := exists_local_change hoperand h₁ hs₁ hapart.ne_nil
  obtain ⟨⟨a₂, ha₂⟩, c₂, hlocal₂⟩ := exists_local_change hoperand h₂ hs₂ hapart.symm.ne_nil
  -- each edit puts a node into a place of its own
  obtain rfl : new₁ = some (root.replaceAt (root.survivorPlace s₁ c₁) c₁) :=
    Except.ok.inj (h₁.symm.trans (hlocal₁ e root rfl hnested (.refl root s₁)))
  obtain rfl : new₂ = some (root.replaceAt (root.survivorPlace s₂ c₂) c₂) :=
    Except.ok.inj (h₂.symm.trans (hlocal₂ e root rfl hnested (.refl root s₂)))
  have hplace₁ : (root.survivorPlace s₁ c₁).Apart s₂ := survivorPlace_apart ha₁ ha₂ hapart c₁
  have hplace₂ : (root.survivorPlace s₂ c₂).Apart s₁ := survivorPlace_apart ha₂ ha₁ hapart.symm c₂
  obtain ⟨m₁, hm₁⟩ := exists_get?_survivorPlace ha₁ c₁
  obtain ⟨m₂, hm₂⟩ := exists_get?_survivorPlace ha₂ c₂
  have hplaces : (root.survivorPlace s₁ c₁).Apart (root.survivorPlace s₂ c₂) :=
    (survivorPlace_apart ha₂ hm₁ hplace₁.symm c₂).symm
  -- neither sees what the other has put in
  have hsame₁ := sameAt_replaceAt root c₂ hplace₂
  have hsame₂ := sameAt_replaceAt root c₁ hplace₁
  have hle₁ := breaches_le_of_apply hp h₁ .nestedGroup
  have hle₂ := breaches_le_of_apply hp h₂ .nestedGroup
  have hpath₁ := path_ne_nil_of_site? hs₁ hapart.ne_nil
  have hpath₂ := path_ne_nil_of_site? hs₂ hapart.symm.ne_nil
  refine ⟨_, _, e.observed root, _, rfl, rfl, Prod.ext ?_ (hlocal₂ _ _ apply_defaults (by omega) hsame₂),
    Prod.ext ?_ ?_⟩
  · rw [apply_fst_of_ne_nil hpath₂, apply_fst_of_ne_nil hpath₁, observed_observed hsame₂.label]
  · rw [apply_fst_of_ne_nil hpath₁, apply_fst_of_ne_nil hpath₂, observed_observed hsame₁.label]
  · rw [hlocal₁ _ _ apply_defaults (by omega) hsame₁, replaceAt_comm c₁ c₂ hm₁ hm₂ hplaces.left hplaces.right]

/-- A deletion that takes brackets with it on the left commutes with a new group on the right, and an override that
the root contradicts is dropped either way. -/
theorem merging_deletion_commutes :
    (default : EditDefaults).placeholder.IsRow ∧
    (boolean .and bracketedRows emptyComparison).validate = [] ∧
    (Editor.apply ⟨default, ⟨some .or⟩⟩ (boolean .and bracketedRows emptyComparison)
        [.left, .child, .right] .delete).2 =
      .ok (some (boolean .and (group .and emptyComparison) emptyComparison)) ∧
    (Editor.apply ⟨default, ⟨some .or⟩⟩ (boolean .and bracketedRows emptyComparison) [.right] .addGroup).2 =
      .ok (some (boolean .and bracketedRows (boolean .and emptyComparison (group .or emptyComparison)))) ∧
    Intent.site? (boolean .and bracketedRows emptyComparison) [.left, .child, .right] .delete =
      some [.left, .child] ∧
    Intent.site? (boolean .and bracketedRows emptyComparison) [.right] .addGroup = some [.right] ∧
    ¬ [Branch.left, .child] <+: [.right] ∧ ¬ [Branch.right] <+: [.left, .child] ∧
    Editor.apply ⟨default, {}⟩ (boolean .and (group .and emptyComparison) emptyComparison)
        [.right] .addGroup =
      (⟨default, {}⟩, .ok (some (boolean .and (group .and emptyComparison)
        (boolean .and emptyComparison (group .or emptyComparison))))) ∧
    Editor.apply ⟨default, {}⟩
        (boolean .and bracketedRows (boolean .and emptyComparison (group .or emptyComparison)))
        [.left, .child, .right] .delete =
      (⟨default, {}⟩, .ok (some (boolean .and (group .and emptyComparison)
        (boolean .and emptyComparison (group .or emptyComparison))))) := by
  have hp : (default : EditDefaults).placeholder.IsRow := by decide
  have hv : (boolean .and bracketedRows emptyComparison).validate = [] := rfl
  have h₁ : (Editor.apply ⟨default, ⟨some .or⟩⟩ (boolean .and bracketedRows emptyComparison)
        [.left, .child, .right] .delete).2 =
      .ok (some (boolean .and (group .and emptyComparison) emptyComparison)) := rfl
  have h₂ : (Editor.apply ⟨default, ⟨some .or⟩⟩ (boolean .and bracketedRows emptyComparison)
        [.right] .addGroup).2 =
      .ok (some (boolean .and bracketedRows (boolean .and emptyComparison (group .or emptyComparison)))) := rfl
  have hs₁ : Intent.site? (boolean .and bracketedRows emptyComparison) [.left, .child, .right] .delete =
    some [.left, .child] := rfl
  have hs₂ : Intent.site? (boolean .and bracketedRows emptyComparison) [.right] .addGroup = some [.right] := rfl
  have h₁₂ : ¬ [Branch.left, .child] <+: [.right] := by decide
  have h₂₁ : ¬ [Branch.right] <+: [.left, .child] := by decide
  refine ⟨hp, hv, h₁, h₂, hs₁, hs₂, h₁₂, h₂₁, ?_⟩
  obtain ⟨t₁, t₂, e', t, ht₁, ht₂, hfirst, hsecond⟩ :=
    independent_edits_commute hp hv h₁ h₂ hs₁ hs₂ h₁₂ h₂₁
  cases ht₁
  cases ht₂
  have happly : Editor.apply ⟨default, {}⟩ (boolean .and (group .and emptyComparison) emptyComparison)
        [.right] .addGroup =
      (⟨default, {}⟩, .ok (some (boolean .and (group .and emptyComparison)
        (boolean .and emptyComparison (group .or emptyComparison))))) := rfl
  cases happly.symm.trans hfirst
  exact ⟨happly, hsecond⟩

end ConditionTree
