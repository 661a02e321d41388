import ConditionTree.Proofs.Ascent

/-!
# Where an edit acts

An edit that deletes nothing acts on its node and on nothing else: in a tree without nested groups the result is the
tree with the changed node in the old one's place (`apply_eq_replaceAt`). So the nodes above keep their kinds and
operators, what stands elsewhere stays, and `Intent.Makes` says what the node itself becomes
(`edit_acts_on_its_node_alone`).
-/

namespace ConditionTree

open Condition

namespace Condition

/-- The connective of a boolean node. -/
def ownConnective? : Condition → Option Connective
  | boolean o _ _ => some o
  | _ => none

end Condition

/-- The connective that an addition to the node at a path joins with: that of the node above, if this is a boolean node
or a group; otherwise the one that the session remembers after it met the root, then that of the node itself, if it is
a boolean node, and the default at last. -/
def Editor.joint (e : Editor) (root : Condition) (path : Path) (node : Condition) : Connective :=
  (((root.parent? path).bind connective?).or
    ((e.session.observe root).override.or node.ownConnective?)).getD e.defaults.operator

/-- What becomes of the node at a path of a tree by an intent that deletes nothing. -/
def Intent.Makes (e : Editor) (root : Condition) (path : Path) (node new : Condition) : Intent → Prop
  | addExpression => new = boolean (e.joint root path node) node e.defaults.placeholder
  | addGroup =>
    new = boolean (e.joint root path node) node
      (group (e.joint root path node).complement e.defaults.placeholder)
  | delete => False
  | setConnective o =>
    (∃ o' child, node = group o' child ∧ new = group o (child.align o)) ∨
      (node.isGroup = false ∧ path = [] ∧ new = node.align o)
  | setComparator o => ∃ o' l r, node = comparison o' l r ∧ new = comparison o l r
  | setValue x => ∃ y, node = number y ∧ new = number x
  | setReference s => ∃ t, node = reference t ∧ new = reference (some s)

variable {e : Editor} {intent : Intent} {root n : Condition} {path : Path} {new : Option Condition}

theorem effective_observed (node : Condition) :
    (e.observed root).effective (root.parent? path) node = e.joint root path node := by
  unfold Editor.effective Session.effective Editor.joint Editor.observed
  cases (root.parent? path).bind connective? with
  | some o => rfl
  | none => cases (e.session.observe root).override <;> cases node <;> rfl

theorem SiteEdit.makes (hi : intent ≠ .delete) (hn : root.get? path = some n)
    (h : SiteEdit (e.observed root) (root.parent? path) intent n new) :
    ∃ c, new = some c ∧ intent.Makes e root path n c ∧ (c.isGroup → n.isGroup) := by
  cases h with
  | addExpression h =>
    refine ⟨_, rfl, ?_, fun hg => by cases hg⟩
    rw [Editor.addSibling, effective_observed]
    rfl
  | addGroup h =>
    refine ⟨_, rfl, ?_, fun hg => by cases hg⟩
    rw [Editor.addGroup, effective_observed]
    rfl
  | delete h => exact absurd rfl hi
  | setGroup o o' child => exact ⟨_, rfl, .inl ⟨o', child, rfl, rfl⟩, fun _ => rfl⟩
  | setRoot o hp h =>
    refine ⟨_, rfl, .inr ⟨h, (parent?_eq_none_iff hn).mp hp, rfl⟩, fun hg => ?_⟩
    rwa [isGroup_align] at hg
  | setComparator o o' l r => exact ⟨_, rfl, ⟨o', l, r, rfl, rfl⟩, fun hg => by cases hg⟩
  | setValue y h => exact ⟨_, rfl, ⟨y, rfl, rfl⟩, fun hg => by cases hg⟩
  | setReference s t => exact ⟨_, rfl, ⟨t, rfl, rfl⟩, fun hg => by cases hg⟩

/-- **An edit that deletes nothing puts the changed node in the place of the old one.** -/
theorem apply_eq_replaceAt (hg : root.breaches .nestedGroup = 0) (hi : intent ≠ .delete)
    (h : (e.apply root path intent).2 = .ok new) :
    ∃ n c, root.get? path = some n ∧ intent.Makes e root path n c ∧ new = some (root.replaceAt path c) := by
  obtain ⟨n, update, hn, hsite, hup⟩ := exists_site_of_apply h
  obtain ⟨c, rfl, hmakes, hgroup⟩ := hsite.makes hi hn
  -- a group is made of a group only, which had no group above it
  have hparent : c.isGroup → ∀ a ∈ root.parent? path, a.isGroup = false := fun hc a ha =>
    isGroup_parent_of_breaches hg hn (hgroup hc) ha
  rw [foldAlong_some hg hn hparent] at hup
  cases hup
  exact ⟨n, c, hn, hmakes, rfl⟩

/-- **An edit that deletes nothing acts on its node alone.** In a tree without nested groups, the nodes above keep
their kinds and operators, what stands elsewhere stays, and the node itself becomes what the intent makes of it; an
addition keeps all that stood there on the left of the new boolean node. -/
theorem edit_acts_on_its_node_alone (hg : root.breaches .nestedGroup = 0) (hi : intent ≠ .delete)
    (h : (e.apply root path intent).2 = .ok new) :
    ∃ n t c, root.get? path = some n ∧ new = some t ∧ root.Replaces path c t ∧ t.get? path = some c ∧
      intent.Makes e root path n c ∧
      (intent = .addExpression ∨ intent = .addGroup →
        ∀ q, t.get? (path ++ .left :: q) = root.get? (path ++ q)) := by
  obtain ⟨n, c, hn, hmakes, rfl⟩ := apply_eq_replaceAt hg hi h
  have hreplaces := replaceAt_replaces hn c
  refine ⟨n, root.replaceAt path c, c, hn, rfl, hreplaces, ?_, hmakes, ?_⟩
  · have hplace := hreplaces.inside []
    rwa [List.append_nil, get?_nil] at hplace
  · intro hadd q
    have hleft : c.branch? .left = some n := by
      rcases hadd with rfl | rfl <;> cases hmakes <;> rfl
    rw [hreplaces.inside, get?_cons, hleft, get?_append, hn]

/-- A group inside of brackets is joined with a further one by the connective of the node above it, whatever the
session remembers, and nothing else changes. -/
theorem addGroup_inside_brackets :
    (boolean .and emptyComparison bracketedRows).breaches .nestedGroup = 0 ∧
    Intent.addGroup ≠ .delete ∧
    (Editor.apply ⟨default, ⟨some .and⟩⟩ (boolean .and emptyComparison bracketedRows)
        [.right, .child, .left] .addGroup).2 =
      .ok (some (boolean .and emptyComparison (group .and (boolean .or
        (boolean .or (group .and emptyComparison) (group .and emptyComparison)) emptyComparison)))) ∧
    ∃ t, t = boolean .and emptyComparison (group .and (boolean .or
        (boolean .or (group .and emptyComparison) (group .and emptyComparison)) emptyComparison)) ∧
      t.get? [.right, .child, .left] =
        some (boolean .or (group .and emptyComparison) (group .and emptyComparison)) ∧
      (boolean .and emptyComparison bracketedRows).Replaces [.right, .child, .left]
        (boolean .or (group .and emptyComparison) (group .and emptyComparison)) t ∧
      ∀ q, t.get? ([.right, .child, .left] ++ .left :: q) =
        (boolean .and emptyComparison bracketedRows).get? ([.right, .child, .left] ++ q) := by
  have hg : (boolean .and emptyComparison bracketedRows).breaches .nestedGroup = 0 := rfl
  have hi : Intent.addGroup ≠ .delete := by decide
  have happly : (Editor.apply ⟨default, ⟨some .and⟩⟩ (boolean .and emptyComparison bracketedRows)
        [.right, .child, .left] .addGroup).2 =
      .ok (some (boolean .and emptyComparison (group .and (boolean .or
        (boolean .or (group .and emptyComparison) (group .and emptyComparison)) emptyComparison)))) := rfl
  refine ⟨hg, hi, happly, ?_⟩
  obtain ⟨n, t, c, hn, ht, hreplaces, hc, hmakes, hleft⟩ := edit_acts_on_its_node_alone hg hi happly
  cases hn
  cases hmakes
  exact ⟨t, (Option.some.inj ht).symm, hc, hreplaces, hleft (.inr rfl)⟩

end ConditionTree
