import ConditionTree.Proofs.Ascent
import ConditionTree.Proofs.RoundTrip

/-!
# Edits do not see the signs of zeros

A tree that is saved and loaded again has lost the signs of its zeros. No edit looks at them: on two trees that differ
in nothing else it succeeds or fails alike, and the new trees again differ in nothing else (`apply_sameSigns`).
-/

namespace ConditionTree

theorem Double.positiveZero_positiveZero (x : Double) : x.positiveZero.positiveZero = x.positiveZero := by
  cases x with
  | finite negative m => cases hm : (m.val != 0) <;> simp [positiveZero, hm]
  | infinite | nan => rfl

namespace Condition

variable {node new : Condition} {b : Branch}

@[simp] theorem positiveZeros_positiveZeros (c : Condition) : c.positiveZeros.positiveZeros = c.positiveZeros := by
  induction c with
  | number x => exact congrArg number x.positiveZero_positiveZero
  | reference s => rfl
  | comparison o l r ihl ihr | boolean o l r ihl ihr => simp [positiveZeros, ihl, ihr]
  | group o child ih => simp [positiveZeros, ih]

@[simp] theorem kind_positiveZeros (c : Condition) : c.positiveZeros.kind = c.kind := by
  cases c <;> rfl

@[simp] theorem isOperand_positiveZeros (c : Condition) : c.positiveZeros.isOperand = c.isOperand := by
  cases c <;> rfl

@[simp] theorem isGroup_positiveZeros (c : Condition) : c.positiveZeros.isGroup = c.isGroup := by
  cases c <;> rfl

@[simp] theorem connective?_positiveZeros (c : Condition) : c.positiveZeros.connective? = c.connective? := by
  cases c <;> rfl

/-! ### The pieces of an edit -/

theorem positiveZeros_align (o : Connective) (c : Condition) :
    (c.align o).positiveZeros = c.positiveZeros.align o := by
  induction c generalizing o with
  | boolean _ l r ihl ihr => simp [align, positiveZeros, ihl, ihr]
  | group _ child ih => simp [align, positiveZeros, ih]
  | _ => rfl

theorem positiveZeros_setGroupOperator? (o : Connective) (c : Condition) :
    (c.setGroupOperator? o).map positiveZeros = c.positiveZeros.setGroupOperator? o := by
  cases c with
  | group _ child => simp [setGroupOperator?, positiveZeros, positiveZeros_align]
  | _ => rfl

/-- A change is folded in without a look at signs. -/
theorem positiveZeros_fold (b : Branch) (update : Option Condition) (node : Condition) :
    (node.fold b update).map (Option.map positiveZeros) = node.positiveZeros.fold b (update.map positiveZeros) := by
  cases hb : node.branch? b with
  | none =>
    have hb' : node.positiveZeros.branch? b = none := by rw [branch?_positiveZeros, hb]; rfl
    simp [fold, hb, hb', Except.map]
  | some child =>
    cases branch?_eq_some_iff.mp hb with
    | groupChild =>
      cases update with
      | none => rfl
      | some new => cases new <;> rfl
    | _ => cases update <;> rfl

end Condition

open Condition

/-! ### The session -/

@[simp] theorem observe_positiveZeros (s : Session) (root : Condition) :
    s.observe root.positiveZeros = s.observe root := by
  unfold Session.observe
  cases s.override <;> cases root <;> rfl

variable {e : Editor} {intent : Intent} {parent : Option Condition} {node root root' : Condition} {path rest : Path}

@[simp] theorem effective_positiveZeros :
    e.effective (parent.map positiveZeros) node.positiveZeros = e.effective parent node := by
  have hparent : (parent.map positiveZeros).bind connective? = parent.bind connective? := by
    cases parent <;> simp
  unfold Editor.effective Session.effective
  rw [hparent]
  cases e.session.override <;> cases node <;> rfl

/-! ### Edits -/

/-- What an edit makes of a node, with no signs of zeros. -/
def unsigned (result : Except EditError (Option Condition)) : Except EditError (Option Condition) :=
  result.map (Option.map positiveZeros)

theorem unsigned_editNode :
    unsigned (e.editNode intent (parent.map positiveZeros) path node.positiveZeros) =
      unsigned (e.editNode intent parent path node) := by
  unfold unsigned
  cases intent with
  | addExpression | addGroup | delete =>
    simp only [Editor.editNode, Editor.addSibling, Editor.addGroup, effective_positiveZeros, isOperand_positiveZeros,
      kind_positiveZeros]
    split_ifs <;> simp [Except.map, addSibling, addGroup, delete, positiveZeros]
  | setConnective o =>
    simp only [Editor.editNode, ← positiveZeros_setGroupOperator?, Option.isNone_map, kind_positiveZeros,
      ← positiveZeros_align]
    cases node.setGroupOperator? o with
    | some new => simp [Except.map]
    | none =>
      dsimp only [Option.map_none]
      split_ifs <;> simp [Except.map]
  | setComparator o => cases node <;> simp [Editor.editNode, positiveZeros, Except.map, kind]
  | setValue x => cases node <;> rfl
  | setReference s => cases node <;> rfl

/-- Nor does the way up look at the signs in what it folds. -/
theorem unsigned_fold {update update' : Option Condition} (b : Branch)
    (h : update'.map positiveZeros = update.map positiveZeros) :
    unsigned ((node.positiveZeros.fold b update').mapError .fold) = unsigned ((node.fold b update).mapError .fold) := by
  have hfold : (node.positiveZeros.fold b update').map (Option.map positiveZeros) =
      (node.fold b update).map (Option.map positiveZeros) := by
    rw [positiveZeros_fold, positiveZeros_fold, positiveZeros_positiveZeros, h]
  cases hf' : node.positiveZeros.fold b update' <;> cases hf : node.fold b update <;> rw [hf', hf] at hfold
  · cases hfold
    rfl
  · cases hfold
  · cases hfold
  · exact congrArg Except.ok (Except.ok.inj hfold)

theorem unsigned_editAt :
    unsigned (e.editAt intent (parent.map positiveZeros) path node.positiveZeros rest) =
      unsigned (e.editAt intent parent path node rest) := by
  -- down the branches that remain, as the edit goes
  induction rest generalizing parent path node with
  | nil => exact unsigned_editNode
  | cons b rest ih =>
    cases hb : node.branch? b with
    | none =>
      have hb' : node.positiveZeros.branch? b = none := by rw [branch?_positiveZeros, hb]; rfl
      rw [Editor.editAt, Editor.editAt, hb, hb', kind_positiveZeros]
    | some child =>
      have hb' : node.positiveZeros.branch? b = some child.positiveZeros := by rw [branch?_positiveZeros, hb]; rfl
      have hchild : unsigned (e.editAt intent ((some node).map positiveZeros) (path ++ [b]) child.positiveZeros rest) =
          unsigned (e.editAt intent (some node) (path ++ [b]) child rest) := ih
      rw [Option.map_some] at hchild
      rw [editAt_cons hb, editAt_cons hb']
      cases hr' : e.editAt intent (some node.positiveZeros) (path ++ [b]) child.positiveZeros rest <;>
        cases hr : e.editAt intent (some node) (path ++ [b]) child rest <;> rw [hr', hr] at hchild
      · cases hchild
        rfl
      · cases hchild
      · cases hchild
      · exact unsigned_fold b (Except.ok.inj hchild)

theorem apply_snd_positiveZeros :
    unsigned (e.apply root.positiveZeros path intent).2 = unsigned (e.apply root path intent).2 := by
  have hobserved : e.observed root.positiveZeros = e.observed root := by
    rw [Editor.observed, observe_positiveZeros]
    rfl
  have hedit : unsigned ((e.observed root).editAt intent ((none : Option Condition).map positiveZeros) []
      root.positiveZeros path) = unsigned ((e.observed root).editAt intent none [] root path) := unsigned_editAt
  rw [apply_snd, apply_snd, hobserved]
  exact hedit

theorem unsigned_apply_congr (h : root.positiveZeros = root'.positiveZeros) :
    unsigned (e.apply root' path intent).2 = unsigned (e.apply root path intent).2 := by
  rw [← apply_snd_positiveZeros, ← h, apply_snd_positiveZeros]

/-- **No edit sees the signs of zeros.** -/
theorem apply_sameSigns {new : Option Condition} (h : root.positiveZeros = root'.positiveZeros)
    (hnew : (e.apply root path intent).2 = .ok new) :
    ∃ new', (e.apply root' path intent).2 = .ok new' ∧ new'.map positiveZeros = new.map positiveZeros := by
  have hsame : unsigned (e.apply root' path intent).2 = unsigned (e.apply root path intent).2 := unsigned_apply_congr h
  rw [hnew] at hsame
  cases hnew' : (e.apply root' path intent).2 with
  | error error =>
    rw [hnew'] at hsame
    cases hsame
  | ok new' =>
    rw [hnew'] at hsame
    exact ⟨new', rfl, Except.ok.inj hsame⟩

/-- Nor does the cause tell of them where an edit fails. -/
theorem apply_error_sameSigns {error : EditError} (h : root.positiveZeros = root'.positiveZeros)
    (herror : (e.apply root path intent).2 = .error error) : (e.apply root' path intent).2 = .error error := by
  have hsame : unsigned (e.apply root' path intent).2 = unsigned (e.apply root path intent).2 := unsigned_apply_congr h
  rw [herror] at hsame
  cases herror' : (e.apply root' path intent).2 with
  | error error' =>
    rw [herror'] at hsame
    cases hsame
    rfl
  | ok new =>
    rw [herror'] at hsame
    cases hsame

end ConditionTree
