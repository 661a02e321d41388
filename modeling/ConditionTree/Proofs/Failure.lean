import ConditionTree.Proofs.Ascent
import ConditionTree.Proofs.PathText

/-!
# Edits that fail

`Failure` lists the four causes for which an edit fails, and each of them excludes the others: the path leads out of
the tree, the node at its end does not take the intent, the value to set is not finite, or a comparison would lose a
side. An edit fails for these causes and for no other (`apply_eq_error_iff`).

A failed edit leaves no trace. That is so although a session may take up a connective before the end of the edit is
known: `enactAt` is the edit that does this at once, and it comes to the same as `apply` (`enactAt_eq_apply`), since
only the root takes a connective for the whole tree and nothing is left to fail above it.
-/

namespace ConditionTree

open Condition

/-- The intents that a node takes. A connective goes to groups, and to the root for the whole tree. -/
def Intent.Suits (atRoot : Prop) (kind : NodeKind) : Intent → Prop
  | addExpression | addGroup | delete => kind.isOperand = false
  | setConnective _ => kind = .group ∨ atRoot
  | setComparator _ => kind = .comparison
  | setValue _ => kind = .number
  | setReference _ => kind = .reference

/-- The causes for which an edit fails, the ones that go first before the others: each asks for what those before it
deny. -/
inductive Failure (root : Condition) (path : Path) (intent : Intent) : EditError → Prop
  /-- The path leads out of the tree at the end of its longest part inside. -/
  | leaves {p rest : Path} {b : Branch} {n : Condition} (hpath : path = p ++ b :: rest)
    (hn : root.get? p = some n) (hb : n.branch? b = none) :
    Failure root path intent (.noSuchBranch b n.kind p)
  | unsuited {n : Condition} (hn : root.get? path = some n)
    (h : ¬ intent.Suits (path = []) n.kind) :
    Failure root path intent (.unsupported intent n.kind path)
  | notFinite {x y : Double} (hn : root.get? path = some (number y)) (hi : intent = .setValue x)
    (hx : x.isFinite = false) : Failure root path intent (.nonFiniteValue x path)
  /-- The nearest node above that is no group is a comparison. -/
  | operand {n l r : Condition} {o : Comparator} {A rest : Path} {b : Branch} (hi : intent = .delete)
    (hn : root.get? path = some n) (hk : n.isOperand = false) (hA : root.nonGroupAbove? path = some A)
    (ha : root.get? A = some (comparison o l r)) (hpath : path = A ++ b :: rest) :
    Failure root path intent (.fold (.operandRemoved b))

/-- The place that an error names. -/
def EditError.path? : EditError → Option Path
  | unsupported _ _ p | noSuchBranch _ _ p | nonFiniteValue _ p => some p
  | fold _ => none

variable {e : Editor} {intent : Intent} {parent : Option Condition} {root node n : Condition} {b : Branch}
  {path rest : Path} {error : EditError}

/-! ### At the node -/

/-- A node refuses what it does not take, and a number every value that is not finite. -/
theorem editNode_eq_error_iff : e.editNode intent parent path node = .error error ↔
    (¬ intent.Suits (parent = none) node.kind ∧ .unsupported intent node.kind path = error) ∨
      ∃ x y, intent = .setValue x ∧ node = number y ∧ x.isFinite = false ∧
        .nonFiniteValue x path = error := by
  cases intent with
  | addExpression | addGroup | delete =>
    have hkind : node.isOperand = node.kind.isOperand := rfl
    cases hn : node.kind.isOperand <;> simp [Editor.editNode, Intent.Suits, hkind, hn]
  | setConnective o =>
    cases node <;> cases parent <;> simp [Editor.editNode, Intent.Suits, setGroupOperator?, kind]
  | setComparator o | setReference s =>
    cases node <;> simp [Editor.editNode, Intent.Suits, kind]
  | setValue x =>
    cases node with
    | number y => cases hx : x.isFinite <;> simp [Editor.editNode, Intent.Suits, kind, hx]
    | _ => simp [Editor.editNode, Intent.Suits, kind]

/-- Only a deletion leaves nothing of its node. -/
theorem SiteEdit.eq_delete (h : SiteEdit e parent intent node none) :
    intent = .delete ∧ node.isOperand = false := by
  cases h with
  | delete h => exact ⟨rfl, h⟩

/-! ### At a place of a tree -/

theorem Failure.apply_eq_error (h : Failure root path intent error) :
    (e.apply root path intent).2 = .error error := by
  cases h with
  | leaves hpath hn hb => rw [hpath, apply_of_missing hn hb]
  | @unsuited n hn h =>
    have hsite : (e.observed root).editNode intent (root.parent? path) path n =
        .error (.unsupported intent n.kind path) :=
      editNode_eq_error_iff.mpr (.inl ⟨by rwa [parent?_eq_none_iff hn], rfl⟩)
    rw [apply_of_get? hn, hsite]
    rfl
  | @notFinite x y hn hi hx =>
    have hsite : (e.observed root).editNode intent (root.parent? path) path (number y) =
        .error (.nonFiniteValue x path) :=
      editNode_eq_error_iff.mpr (.inr ⟨x, y, hi, rfl, hx, rfl⟩)
    rw [apply_of_get? hn, hsite]
    rfl
  | @operand n l r o A rest b hi hn hk hA ha hpath =>
    rw [hi, apply_delete hn hk]
    obtain ⟨b', rest', hpath', hcase⟩ := foldAlong_none hn hA
    -- the comparison loses the branch that the path takes there
    obtain ⟨rfl, -⟩ := List.cons_eq_cons.mp (List.append_cancel_left (hpath.symm.trans hpath'))
    obtain ⟨o', l', r', -, hfold⟩ | ⟨o', l', r', other, s, hboolean, -⟩ := hcase
    · rw [hfold]
      rfl
    · cases ha.symm.trans hboolean

/-- A deletion fails where the nearest node above that is no group is a comparison. -/
theorem failure_of_foldAlong_none {cause : FoldError} (hi : intent = .delete)
    (hn : root.get? path = some n) (hk : n.isOperand = false)
    (h : root.foldAlong path none = .error cause) : Failure root path intent (.fold cause) := by
  cases hA : root.nonGroupAbove? path with
  | none =>
    rw [foldAlong_none_of_groups hn hA] at h
    cases h
  | some A =>
    obtain ⟨b, rest, hpath, ⟨o, l, r, ha, hremoved⟩ | ⟨o, l, r, other, s, ha, -, -, hsurvivor⟩⟩ :=
      foldAlong_none hn hA
    · cases hremoved.symm.trans h
      exact .operand hi hn hk hA ha hpath
    · -- a boolean node has its other side to put in its place
      obtain ⟨t, ht⟩ := exists_foldAlong_some s ha
      rw [hsurvivor, ht] at h
      cases h

/-- **An edit fails for the causes of `Failure` and for no other.** -/
theorem apply_eq_error_iff :
    (e.apply root path intent).2 = .error error ↔ Failure root path intent error := by
  refine ⟨fun h => ?_, Failure.apply_eq_error⟩
  cases hn : root.get? path with
  | none =>
    obtain ⟨p, b, rest, n, rfl, hn', hb⟩ := exists_missing_branch hn
    rw [apply_of_missing hn' hb] at h
    cases h
    exact .leaves rfl hn' hb
  | some n =>
    rw [apply_of_get? hn] at h
    cases hu : (e.observed root).editNode intent (root.parent? path) path n with
    | error error' =>
      rw [hu] at h
      cases h
      obtain ⟨hsuits, rfl⟩ | ⟨x, y, hi, rfl, hx, rfl⟩ := editNode_eq_error_iff.mp hu
      · exact .unsuited hn (by rwa [parent?_eq_none_iff hn] at hsuits)
      · exact .notFinite hn hi hx
    | ok update =>
      rw [hu, Except.bind] at h
      cases update with
      | some c =>
        obtain ⟨t, ht⟩ := exists_foldAlong_some c hn
        rw [ht] at h
        cases h
      | none =>
        obtain ⟨hi, hk⟩ := (editNode_eq_ok_iff.mp hu).eq_delete
        cases hf : root.foldAlong path none with
        | ok t => rw [hf] at h; cases h
        | error cause =>
          rw [hf] at h
          cases h
          exact failure_of_foldAlong_none hi hn hk hf

/-- An error that names a place names one of the tree, on the way to the end of the path. -/
theorem Failure.path?_mem (h : Failure root path intent error) :
    ∀ p ∈ error.path?, p <+: path ∧ ∃ n, root.get? p = some n := by
  rintro p hp
  cases h with
  | leaves hpath hn hb =>
    cases hp
    exact ⟨hpath ▸ List.prefix_append _ _, _, hn⟩
  | unsuited hn h | notFinite hn h hx =>
    cases hp
    exact ⟨List.prefix_rfl, _, hn⟩
  | operand => cases hp

/-- No comparison loses a side in a tree whose comparisons stand between operands. -/
theorem Failure.ne_operandRemoved (hroot : root.breaches .nonOperand = 0)
    (h : Failure root path intent error) (b : Branch) : error ≠ .fold (.operandRemoved b) := by
  rintro rfl
  cases h with
  | @operand n l r o A rest _ hi hn hk hA ha hpath =>
    rw [hpath, get?_append, ha, Option.bind_some] at hn
    obtain ⟨side, hb, hside⟩ := get?_cons_eq_some_iff.mp hn
    have hle := breaches_get?_le .nonOperand ha
    have hop : side.isOperand := isOperand_of_branch (by omega) hb
    rw [eq_of_get?_operand hop hside, hop] at hk
    cases hk

/-! ### The session -/

/-- The edit of a node that takes a connective for the whole tree into the session as soon as the tree is aligned with
it. -/
def Editor.enactNode (e : Editor) (intent : Intent) (parent : Option Condition) (path : Path)
    (node : Condition) : Editor × Except EditError (Option Condition) :=
  match intent with
  | .setConnective o =>
    if node.isGroup = false ∧ parent = none then
      ((e.changeOperator o node).1, .ok (some (e.changeOperator o node).2))
    else (e, e.editNode intent parent path node)
  | _ => (e, e.editNode intent parent path node)

/-- The edit below a node in which the session changes at once, before it is known what comes of the edit further
up. -/
def Editor.enactAt (e : Editor) (intent : Intent) (parent : Option Condition) (path : Path)
    (node : Condition) : Path → Editor × Except EditError (Option Condition)
  | [] => e.enactNode intent parent path node
  | b :: rest =>
    match node.branch? b with
    | none => (e, .error (.noSuchBranch b node.kind path))
    | some child =>
      let (after, result) := e.enactAt intent (some node) (path ++ [b]) child rest
      (after, result.bind fun update => (node.fold b update).mapError .fold)

theorem enactNode_snd :
    (e.enactNode intent parent path node).2 = e.editNode intent parent path node := by
  cases intent with
  | setConnective o =>
    by_cases h : node.isGroup = false ∧ parent = none
    · have hsite : e.editNode (.setConnective o) parent path node = .ok (some (node.align o)) :=
        editNode_eq_ok_iff.mpr (.setRoot o h.2 h.1)
      rw [Editor.enactNode, if_pos h, hsite]
      rfl
    · rw [Editor.enactNode, if_neg h]
  | _ => rfl

theorem enactAt_snd : ∀ {at' path : Path} {node : Condition} {parent : Option Condition},
    (e.enactAt intent parent path node at').2 = e.editAt intent parent path node at'
  | [], _, _, _ => enactNode_snd
  | b :: rest, path, node, parent => by
    cases hb : node.branch? b with
    | none => rw [Editor.enactAt, Editor.editAt, hb]
    | some child =>
      rw [editAt_cons hb, ← enactAt_snd]
      simp only [Editor.enactAt, hb]

/-- Below a node, no connective is one for the whole tree. -/
theorem enactAt_fst_of_parent : ∀ {at' path : Path} {node a : Condition},
    (e.enactAt intent (some a) path node at').1 = e
  | [], path, node, a => by
    cases intent <;> simp [Editor.enactAt, Editor.enactNode]
  | b :: rest, path, node, a => by
    cases hb : node.branch? b with
    | none => rw [Editor.enactAt, hb]
    | some child =>
      simp only [Editor.enactAt, hb]
      exact enactAt_fst_of_parent

theorem enactAt_fst_cons : (e.enactAt intent parent path node (b :: rest)).1 = e := by
  cases hb : node.branch? b with
  | none => rw [Editor.enactAt, hb]
  | some child =>
    simp only [Editor.enactAt, hb]
    exact enactAt_fst_of_parent

/-- **A session that changes at once comes to the same** as one that waits for the end of the edit. -/
theorem enactAt_eq_apply :
    (e.observed root).enactAt intent none [] root path = e.apply root path intent := by
  refine Prod.ext ?_ (enactAt_snd.trans apply_snd.symm)
  cases h : (e.apply root path intent).2 with
  | ok new =>
    rw [apply_fst_of_ok h]
    cases path with
    | cons b rest => rw [enactAt_fst_cons, remember_cons]; rfl
    | nil =>
      cases intent with
      | setConnective o =>
        cases hg : root.isGroup <;>
          simp [Editor.enactAt, Editor.enactNode, Editor.remember, Editor.changeOperator,
            Editor.observed, hg]
      | _ => rfl
  | error error =>
    rw [apply_fst_of_error h]
    cases path with
    | cons b rest => exact enactAt_fst_cons
    | nil =>
      cases intent with
      | setConnective o =>
        cases hg : root.isGroup with
        | true => simp [Editor.enactAt, Editor.enactNode, hg]
        | false =>
          -- a root that is no group takes every connective
          have hok : (e.apply root [] (.setConnective o)).2 = .ok (some (root.align o)) :=
            apply_eq_ok_iff.mpr (.site (.setRoot o rfl hg))
          cases h.symm.trans hok
      | _ => rfl

/-- **An edit fails exactly for the causes of `Failure`, and a failed edit leaves no trace.** A branch is never put
into a node that does not have it, and no comparison loses a side where comparisons stand between operands. The session
is as the root left it, whether or not it changes before the end of the edit is known, and the text of the place that
an error names leads to a node on the way to where the edit was meant for. -/
theorem failure_exact_and_traceless (e : Editor) (root : Condition) (path : Path) (intent : Intent) :
    (∀ error, (e.apply root path intent).2 = .error error ↔ Failure root path intent error) ∧
    (∀ error, (e.apply root path intent).2 = .error error →
      (e.apply root path intent).1 = { e with session := e.session.observe root } ∧
      (∀ b kind, error ≠ .fold (.branchMismatch b kind)) ∧
      (root.breaches .nonOperand = 0 → ∀ b, error ≠ .fold (.operandRemoved b)) ∧
      ∀ p ∈ error.path?, Path.ofText p.text = .ok p ∧ p <+: path ∧ ∃ n, root.get? p = some n) ∧
    (e.observed root).enactAt intent none [] root path = e.apply root path intent := by
  refine ⟨fun error => apply_eq_error_iff, fun error h => ?_, enactAt_eq_apply⟩
  have hfailure : Failure root path intent error := apply_eq_error_iff.mp h
  refine ⟨apply_fst_of_error h, ?_, fun hroot => hfailure.ne_operandRemoved hroot, fun p hp => ?_⟩
  · rintro b kind rfl
    cases hfailure
  · exact ⟨Path.ofText_text p, hfailure.path?_mem p hp⟩

/-- A comparison with brackets on its left side, beside a new row. -/
def Condition.lopsided : Condition :=
  boolean .and emptyComparison (comparison .equal (group .or emptyComparison) (number .zero))

/-- A deletion that empties the side of a comparison fails, and so does a connective for a branch that brackets do not
have; the session has but dropped what the root contradicts. -/
theorem emptied_side_and_missing_branch :
    (Editor.apply ⟨default, ⟨some .or⟩⟩ lopsided [.right, .left, .child] .delete).2 =
      .error (.fold (.operandRemoved .left)) ∧
    Failure lopsided [.right, .left, .child] .delete (.fold (.operandRemoved .left)) ∧
    (Editor.apply ⟨default, ⟨some .or⟩⟩ lopsided [.right, .left, .child] .delete).1 = ⟨default, {}⟩ ∧
    bracketedRows.breaches .nonOperand = 0 ∧
    (Editor.apply ⟨default, ⟨some .or⟩⟩ bracketedRows [.child, .left, .left] (.setConnective .and)).2 =
      .error (.noSuchBranch .left .group [.child, .left]) ∧
    (Editor.apply ⟨default, ⟨some .or⟩⟩ bracketedRows [.child, .left, .left] (.setConnective .and)).1 =
      ⟨default, ⟨some .or⟩⟩ ∧
    EditError.noSuchBranch .left .group [.child, .left] ≠ .fold (.operandRemoved .left) ∧
    Path.ofText (Path.text [.child, .left]) = .ok [.child, .left] := by
  have hside : (Editor.apply ⟨default, ⟨some .or⟩⟩ lopsided [.right, .left, .child] .delete).2 =
    .error (.fold (.operandRemoved .left)) := rfl
  have hbranch : (Editor.apply ⟨default, ⟨some .or⟩⟩ bracketedRows [.child, .left, .left]
    (.setConnective .and)).2 = .error (.noSuchBranch .left .group [.child, .left]) := rfl
  have hroot : bracketedRows.breaches .nonOperand = 0 := rfl
  obtain ⟨hiff, htrace, -⟩ := failure_exact_and_traceless ⟨default, ⟨some .or⟩⟩ lopsided
    [.right, .left, .child] .delete
  obtain ⟨-, htrace', -⟩ := failure_exact_and_traceless ⟨default, ⟨some .or⟩⟩ bracketedRows
    [.child, .left, .left] (.setConnective .and)
  obtain ⟨hsession, -, hremoved, hpath⟩ := htrace' _ hbranch
  exact ⟨hside, (hiff _).mp hside, (htrace _ hside).1, hroot, hbranch, hsession, hremoved hroot .left,
    (hpath _ rfl).1⟩

end ConditionTree
