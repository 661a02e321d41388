import ConditionTree.Proofs.Edits

/-!
# Runs of edits

A `Desk` is an editor with the tree it is at work on. A request that succeeds puts the new tree on the desk and one
that fails leaves the tree there; once the last condition is deleted there is nothing left to edit. A run is a list of
requests, each on the tree that the ones before it left.

What every edit keeps holds on the desk after every run (`tree_run`).
-/

namespace ConditionTree

/-- An intent for the node at a path. -/
structure Request where
  path : Path
  intent : Intent
deriving DecidableEq, Repr

/-- An editor and the tree it is at work on, if one is left. -/
structure Desk where
  editor : Editor
  tree : Option Condition
deriving Repr

namespace Desk

def step (d : Desk) (r : Request) : Desk :=
  match d.tree with
  | none => d
  | some root =>
    let (editor, result) := d.editor.apply root r.path r.intent
    ⟨editor, result.toOption.getD (some root)⟩

def run (d : Desk) (requests : List Request) : Desk :=
  requests.foldl step d

variable {d : Desk} {r : Request} {root : Condition} {new : Option Condition}

@[simp] theorem run_cons (d : Desk) (r : Request) (rs : List Request) :
    d.run (r :: rs) = (d.step r).run rs := rfl

theorem step_of_none (ht : d.tree = none) : d.step r = d := by
  simp [step, ht]

theorem step_of_some (ht : d.tree = some root) :
    d.step r = ⟨(d.editor.apply root r.path r.intent).1,
      (d.editor.apply root r.path r.intent).2.toOption.getD (some root)⟩ := by
  simp [step, ht]

@[simp] theorem defaults_step : (d.step r).editor.defaults = d.editor.defaults := by
  cases ht : d.tree with
  | none => rw [step_of_none ht]
  | some root => rw [step_of_some ht]; exact apply_defaults

/-- What is on the desk after a step comes of a successful edit, or was there before an edit that failed. -/
theorem exists_edit_of_mem_step {c : Condition} (h : c ∈ (d.step r).tree) :
    ∃ root ∈ d.tree, (d.step r).editor = (d.editor.apply root r.path r.intent).1 ∧
      ((d.editor.apply root r.path r.intent).2 = .ok (some c) ∨
        (c = root ∧ ∃ error, (d.editor.apply root r.path r.intent).2 = .error error)) := by
  cases ht : d.tree with
  | none =>
    rw [step_of_none ht, ht] at h
    cases h
  | some root =>
    rw [step_of_some ht] at h ⊢
    refine ⟨root, rfl, rfl, ?_⟩
    cases hr : (d.editor.apply root r.path r.intent).2 with
    | ok new =>
      rw [hr] at h
      exact .inl (congrArg Except.ok h)
    | error error =>
      rw [hr] at h
      exact .inr ⟨(Option.some.inj h).symm, error, rfl⟩

/-- Induction over a run. -/
theorem run_induction {P : Desk → Prop} (hstep : ∀ d r, P d → P (d.step r)) :
    ∀ (rs : List Request) (d : Desk), P d → P (d.run rs)
  | [], _, h => h
  | r :: rs, d, h => run_induction hstep rs (d.step r) (hstep d r h)

@[simp] theorem defaults_run (d : Desk) (rs : List Request) :
    (d.run rs).editor.defaults = d.editor.defaults :=
  run_induction (P := fun d' => d'.editor.defaults = d.editor.defaults)
    (fun _ _ h => defaults_step.trans h) rs d rfl

/-- What every successful edit keeps holds of the tree that a run leaves. -/
theorem tree_run {P : Condition → Prop}
    (hedit : ∀ (e : Editor) (root c : Condition) (path : Path) (intent : Intent),
      e.defaults = d.editor.defaults → P root → (e.apply root path intent).2 = .ok (some c) → P c)
    (h : ∀ c ∈ d.tree, P c) (rs : List Request) : ∀ c ∈ (d.run rs).tree, P c := by
  refine (run_induction (P := fun d' => d'.editor.defaults = d.editor.defaults ∧ ∀ c ∈ d'.tree, P c)
    (fun d' r ⟨hd, hP⟩ => ⟨defaults_step.trans hd, ?_⟩) rs d ⟨rfl, h⟩).2
  intro c hc
  obtain ⟨root, hroot, -, hr | ⟨rfl, -⟩⟩ := exists_edit_of_mem_step hc
  · exact hedit _ root c r.path r.intent hd (hP root hroot) hr
  · exact hP c hroot

end Desk

end ConditionTree
