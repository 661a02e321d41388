import ConditionTree.Proofs.Violations

/-!
# Uniform chains

A boolean node fits a context if it has the context's connective; every other node fits. A tree is uniform if each
branch fits the connective of the node above it, so that no chain of boolean nodes mixes `&&` and `||` without
brackets.

Every edit keeps a tree uniform whose comparisons stand between operands (`edits_keep_uniform`). What carries the
induction is that the node to edit fits the connective that an addition at its place would join with.
-/

namespace ConditionTree

open Violation (Rule)

namespace Condition

/-- A boolean node has the connective of its context, where there is one. -/
def Fits (context : Option Connective) : Condition → Prop
  | boolean o _ _ => ∀ o' ∈ context, o' = o
  | _ => True

/-- A boolean node right below a boolean node or a group has the connective of that node. -/
def Uniform : Condition → Prop
  | number _ | reference _ => True
  | comparison _ l r => l.Uniform ∧ r.Uniform
  | boolean o l r => (l.Fits (some o) ∧ l.Uniform) ∧ r.Fits (some o) ∧ r.Uniform
  | group o child => child.Fits (some o) ∧ child.Uniform

instance (context : Option Connective) : DecidablePred (Fits context)
  | boolean o _ _ => inferInstanceAs (Decidable (∀ o' ∈ context, o' = o))
  | number _ | reference _ | comparison _ _ _ | group _ _ => inferInstanceAs (Decidable True)

instance decidableUniform : DecidablePred Uniform
  | number _ | reference _ => inferInstanceAs (Decidable True)
  | comparison _ l r =>
    have := decidableUniform l
    have := decidableUniform r
    inferInstanceAs (Decidable (l.Uniform ∧ r.Uniform))
  | boolean o l r =>
    have := decidableUniform l
    have := decidableUniform r
    inferInstanceAs (Decidable ((l.Fits (some o) ∧ l.Uniform) ∧ r.Fits (some o) ∧ r.Uniform))
  | group o child =>
    have := decidableUniform child
    inferInstanceAs (Decidable (child.Fits (some o) ∧ child.Uniform))

variable {context : Option Connective} {node child new : Condition} {b : Branch} {o : Connective}

/-! ### Contexts -/

@[simp] theorem fits_none (c : Condition) : c.Fits none := by
  cases c <;> simp [Fits]

@[simp] theorem fits_boolean (l r : Condition) :
    (boolean o l r).Fits context ↔ ∀ o' ∈ context, o' = o := Iff.rfl

theorem fits_of_isOperand (h : node.isOperand) : node.Fits context := by
  cases node <;> trivial

theorem fits_of_isGroup (h : node.isGroup) : node.Fits context := by
  cases node <;> trivial

theorem fits_of_isRow (h : node.IsRow) : node.Fits context := by
  cases node <;> trivial

/-- A context that says no more than a connective asks no more. -/
theorem Fits.mono (h : node.Fits (some o)) (hc : ∀ o' ∈ context, o' = o) : node.Fits context := by
  cases node with
  | boolean o' l r =>
    intro o'' ho
    rw [hc o'' ho]
    exact h o rfl
  | _ => trivial

theorem fits_replaceBranch : (node.replaceBranch b new).Fits context ↔ node.Fits context := by
  cases node <;> cases b <;> rfl

/-! ### Branches -/

theorem uniform_branch (hb : node.branch? b = some child) (h : node.Uniform) :
    child.Fits node.connective? ∧ child.Uniform := by
  cases branch?_eq_some_iff.mp hb with
  | comparisonLeft => exact ⟨fits_none _, h.1⟩
  | comparisonRight => exact ⟨fits_none _, h.2⟩
  | booleanLeft => exact h.1
  | booleanRight => exact h.2
  | groupChild => exact h

theorem uniform_replaceBranch (hb : node.branch? b = some child) (h : node.Uniform)
    (hf : new.Fits node.connective?) (hn : new.Uniform) : (node.replaceBranch b new).Uniform := by
  cases branch?_eq_some_iff.mp hb with
  | comparisonLeft => exact ⟨hn, h.2⟩
  | comparisonRight => exact ⟨h.1, hn⟩
  | booleanLeft => exact ⟨⟨hf, hn⟩, h.2⟩
  | booleanRight => exact ⟨h.1, hf, hn⟩
  | groupChild => exact ⟨hf, hn⟩

theorem uniform_of_isOperand (h : node.isOperand) : node.Uniform := by
  cases node <;> trivial

theorem uniform_of_isRow (h : node.IsRow) : node.Uniform := by
  cases node with
  | comparison o l r => exact ⟨uniform_of_isOperand h.1, uniform_of_isOperand h.2⟩
  | _ => cases h

theorem fits_align (c : Condition) (o : Connective) : (c.align o).Fits (some o) := by
  cases c with
  | boolean _ l r => rintro o' ⟨⟩; rfl
  | _ => trivial

/-- Aligning reaches everything but what stands inside of comparisons. -/
theorem uniform_align {c : Condition} (h : c.breaches .nonOperand = 0) (o : Connective) :
    (c.align o).Uniform := by
  induction c generalizing o with
  | number | reference => trivial
  | comparison _ l r =>
    rw [breaches_comparison] at h
    exact ⟨uniform_of_isOperand (isOperand_of_sideBreach (by omega)),
      uniform_of_isOperand (isOperand_of_sideBreach (by omega))⟩
  | boolean _ l r ihl ihr =>
    rw [breaches_boolean] at h
    exact ⟨⟨fits_align l o, ihl (by omega) o⟩, fits_align r o, ihr (by omega) o⟩
  | group _ child ih =>
    rw [breaches_group] at h
    exact ⟨fits_align child _, ih (by omega) _⟩

end Condition

open Condition

variable {e : Editor} {intent : Intent} {parent : Option Condition} {node : Condition} {path : Path}
  {new : Option Condition}

/-! ### What additions join with -/

/-- Where there is a context, additions join with it. -/
theorem effective_of_context {o : Connective} (h : o ∈ parent.bind connective?) :
    e.effective parent node = o := by
  have ho : parent.bind connective? = some o := h
  simp [Editor.effective, Session.effective, ho]

theorem Condition.Fits.of_effective {c : Condition} (h : c.Fits (some (e.effective parent node))) :
    c.Fits (parent.bind connective?) :=
  h.mono fun _ ho => (effective_of_context ho).symm

theorem fits_observe (s : Session) (root : Condition) : root.Fits (s.observe root).override := by
  cases root with
  | boolean o l r =>
    cases hs : s.override with
    | none => simp [Session.observe, hs]
    | some chosen =>
      by_cases ho : o = chosen
      · simp [Session.observe, hs, ho]
      · simp [Session.observe, hs, ho]
  | _ => trivial

/-- At the root, additions join with the connective of a boolean node, once the session agrees with it. -/
theorem fits_effective_root (h : node.Fits e.session.override) :
    node.Fits (some (e.effective none node)) := by
  cases node with
  | boolean o l r =>
    cases hs : e.session.override with
    | none => simp [Editor.effective, Session.effective, hs]
    | some chosen => simpa [Editor.effective, Session.effective, hs] using h chosen hs
  | _ => trivial

/-- Below a node, additions join with the connective that the branches have to fit. -/
theorem fits_effective_branch {b : Branch} {child : Condition} (hb : node.branch? b = some child)
    (hn : node.breaches .nonOperand = 0) (hu : node.Uniform) :
    child.Fits (some (e.effective (some node) child)) := by
  have hf := (uniform_branch hb hu).1
  cases node with
  | boolean o l r | group o c => rwa [effective_of_context (o := o) rfl]
  | comparison o l r => exact fits_of_isOperand (isOperand_of_branch hn hb)
  | number | reference => cases hb

/-! ### What edits keep -/

theorem SiteEdit.uniform (hp : e.defaults.placeholder.IsRow) (h : SiteEdit e parent intent node new)
    (hf : node.Fits (some (e.effective parent node))) (hn : node.breaches .nonOperand = 0)
    (hu : node.Uniform) : ∀ c ∈ new, c.Fits (parent.bind connective?) ∧ c.Uniform := by
  rintro c hc
  cases h <;> cases hc
  case addExpression =>
    refine ⟨fun o ho => (effective_of_context ho).symm, ⟨hf, hu⟩, ?_⟩
    exact ⟨fits_of_isRow hp, uniform_of_isRow hp⟩
  case addGroup =>
    refine ⟨fun o ho => (effective_of_context ho).symm, ⟨hf, hu⟩, trivial, ?_⟩
    exact ⟨fits_of_isRow hp, uniform_of_isRow hp⟩
  case setGroup o o' child =>
    rw [breaches_group] at hn
    exact ⟨trivial, fits_align child o, uniform_align (by omega) o⟩
  case setRoot o hnone _ =>
    subst hnone
    exact ⟨fits_none _, uniform_align hn o⟩
  case setComparator => exact ⟨trivial, hu⟩
  case setValue | setReference => exact ⟨trivial, trivial⟩

/-- An edit of a node that fits where it stands leaves a node that fits there. -/
theorem Edits.uniform (hp : e.defaults.placeholder.IsRow) (h : Edits e intent parent node path new)
    (hf : node.Fits (some (e.effective parent node))) (hn : node.breaches .nonOperand = 0)
    (hu : node.Uniform) : ∀ c ∈ new, c.Fits (parent.bind connective?) ∧ c.Uniform := by
  induction h with
  | site h => exact h.uniform hp hf hn hu
  | within hb _ _ ih =>
    rintro c ⟨⟩
    have hle := breaches_branch_le .nonOperand hb
    obtain ⟨hcf, hcu⟩ := ih (fits_effective_branch hb hn hu) (by omega) (uniform_branch hb hu).2 _ rfl
    exact ⟨fits_replaceBranch.mpr hf.of_effective, uniform_replaceBranch hb hu hcf hcu⟩
  | @merge _ o child _ _ _ hg ih =>
    rintro c ⟨⟩
    -- the merged group fits any context, so it need not agree with the group that it replaces
    have hb : (group o child).branch? .child = some child := rfl
    have hle := breaches_branch_le .nonOperand hb
    obtain ⟨-, hcu⟩ := ih (fits_effective_branch hb hn hu) (by omega) hu.2 _ rfl
    exact ⟨fits_of_isGroup hg, hcu⟩
  -- the side that is left has the connective of the node that goes, which fits its own context
  | closeLeft =>
    rintro c ⟨⟩
    exact ⟨hu.2.1.mono hf.of_effective, hu.2.2⟩
  | closeRight =>
    rintro c ⟨⟩
    exact ⟨hu.1.1.mono hf.of_effective, hu.1.2⟩
  | vanish => rintro c ⟨⟩

theorem uniform_of_apply (hp : e.defaults.placeholder.IsRow) {root c : Condition}
    (hn : root.breaches .nonOperand = 0) (hu : root.Uniform)
    (h : (e.apply root path intent).2 = .ok (some c)) : c.Uniform :=
  (Edits.uniform (e := e.observed root) hp (apply_eq_ok_iff.mp h)
    (fits_effective_root (fits_observe e.session root)) hn hu c rfl).2

namespace Desk

/-- The tree on the desk is one whose chains stay uniform. -/
structure Ready (d : Desk) : Prop where
  placeholder : d.editor.defaults.placeholder.IsRow
  operands : ∀ c ∈ d.tree, c.breaches .nonOperand = 0
  uniform : ∀ c ∈ d.tree, c.Uniform

theorem Ready.run {d : Desk} (h : d.Ready) (rs : List Request) : (d.run rs).Ready := by
  have htree := tree_run (d := d) (P := fun c => c.breaches .nonOperand = 0 ∧ c.Uniform)
    (fun e root c path intent hd hroot hr => ?_) (fun c hc => ⟨h.operands c hc, h.uniform c hc⟩) rs
  · refine ⟨?_, fun c hc => (htree c hc).1, fun c hc => (htree c hc).2⟩
    rw [defaults_run]
    exact h.placeholder
  · have hrow : e.defaults.placeholder.IsRow := hd ▸ h.placeholder
    have hle := breaches_le_of_apply hrow hr .nonOperand
    exact ⟨by omega, uniform_of_apply hrow hroot.1 hroot.2 hr⟩

theorem ready_of_tree {d : Desk} {root : Condition} (ht : d.tree = some root)
    (hp : d.editor.defaults.placeholder.IsRow) (hn : root.breaches .nonOperand = 0)
    (hu : root.Uniform) : d.Ready := by
  refine ⟨hp, fun c hc => ?_, fun c hc => ?_⟩ <;> cases ht.symm.trans hc
  · exact hn
  · exact hu

end Desk

/-- **Edits never create a mixed chain**, whatever the session remembers, as long as comparisons stand between
operands. -/
theorem edits_keep_uniform {e : Editor} (hp : e.defaults.placeholder.IsRow) {root : Condition}
    (hn : root.breaches .nonOperand = 0) (hu : root.Uniform) :
    (∀ (path : Path) (intent : Intent) (new : Option Condition),
      (e.apply root path intent).2 = .ok new → ∀ c ∈ new, c.Uniform) ∧
    ∀ (rs : List Request), ∀ c ∈ (Desk.run ⟨e, some root⟩ rs).tree, c.Uniform := by
  constructor
  · rintro path intent new h c rfl
    exact uniform_of_apply hp hn hu h
  · exact fun rs => ((Desk.ready_of_tree rfl hp hn hu).run rs).uniform

/-- A chain of two new rows. -/
def Condition.joinedRows (o : Connective) : Condition :=
  boolean o emptyComparison emptyComparison

/-- An override that contradicts the root does not reach the chain. -/
theorem contradicted_override_keeps_uniform :
    (default : EditDefaults).placeholder.IsRow ∧
    (joinedRows .and).breaches .nonOperand = 0 ∧ (joinedRows .and).Uniform ∧
    (Editor.apply ⟨default, ⟨some .or⟩⟩ (joinedRows .and) [.left] .addExpression).2 =
      .ok (some (boolean .and (joinedRows .and) emptyComparison)) ∧
    (boolean .and (joinedRows .and) emptyComparison).Uniform ∧
    ∀ c ∈ (Desk.run ⟨⟨default, ⟨some .or⟩⟩, some (joinedRows .and)⟩
      [⟨[], .addGroup⟩, ⟨[.left], .delete⟩, ⟨[], .addExpression⟩]).tree, c.Uniform := by
  have hp : (default : EditDefaults).placeholder.IsRow := by decide
  have hn : (joinedRows .and).breaches .nonOperand = 0 := rfl
  have hu : (joinedRows .and).Uniform := by decide
  obtain ⟨hstep, hrun⟩ := edits_keep_uniform (e := ⟨default, ⟨some .or⟩⟩) hp hn hu
  exact ⟨hp, hn, hu, rfl, hstep [.left] .addExpression _ rfl _ rfl, hrun _⟩

end ConditionTree
