import ConditionTree.Config
import ConditionTree.Proofs.Runs
import ConditionTree.Proofs.Wire

/-!
# Saving what the editor makes

Numbers come into a tree from the text that it was read from, from values that are set, and from the placeholder of
the settings. The first two are checked to be finite. The placeholder is not, and so the trees that an editor comes to
can be saved and loaded again exactly if the settings give it a finite value (`runs_load_iff`).
-/

namespace ConditionTree

open Condition

namespace Condition

variable {node child new c : Condition} {b : Branch}

theorem allFinite_align (h : c.AllFinite) (o : Connective) : (c.align o).AllFinite := by
  induction c generalizing o with
  | boolean _ l r ihl ihr => exact ⟨ihl h.1 o, ihr h.2 o⟩
  | group _ child ih => exact ih h _
  | _ => exact h

theorem allFinite_branch (hb : node.branch? b = some child) (h : node.AllFinite) :
    child.AllFinite := by
  cases branch?_eq_some_iff.mp hb with
  | comparisonLeft | booleanLeft => exact h.1
  | comparisonRight | booleanRight => exact h.2
  | groupChild => exact h

theorem allFinite_of_get? {p : Path} (h : c.AllFinite) (hp : c.get? p = some node) : node.AllFinite := by
  induction p generalizing c with
  | nil =>
    cases (get?_nil c).symm.trans hp
    exact h
  | cons b p ih =>
    rw [get?_cons, Option.bind_eq_some_iff] at hp
    obtain ⟨child, hb, hchild⟩ := hp
    exact ih (allFinite_branch hb h) hchild

theorem allFinite_replaceBranch (hb : node.branch? b = some child) (h : node.AllFinite)
    (hn : new.AllFinite) : (node.replaceBranch b new).AllFinite := by
  cases branch?_eq_some_iff.mp hb with
  | comparisonLeft | booleanLeft => exact ⟨hn, h.2⟩
  | comparisonRight | booleanRight => exact ⟨h.1, hn⟩
  | groupChild => exact hn

end Condition

variable {e : Editor} {intent : Intent} {parent : Option Condition} {node : Condition} {path : Path}
  {new : Option Condition}

theorem SiteEdit.allFinite (hp : e.defaults.placeholder.AllFinite)
    (h : SiteEdit e parent intent node new) (hn : node.AllFinite) : ∀ c ∈ new, c.AllFinite := by
  rintro c hc
  cases h <;> cases hc
  case addExpression | addGroup => exact ⟨hn, hp⟩
  case setGroup o o' child =>
    have hchild : child.AllFinite := hn
    exact allFinite_align hchild o
  case setRoot o _ _ => exact allFinite_align hn o
  case setComparator => exact hn
  case setValue x _ hx => exact hx
  case setReference => trivial

theorem Edits.allFinite (hp : e.defaults.placeholder.AllFinite)
    (h : Edits e intent parent node path new) (hn : node.AllFinite) : ∀ c ∈ new, c.AllFinite := by
  induction h with
  | site h => exact h.allFinite hp hn
  | within hb _ _ ih =>
    rintro c ⟨⟩
    exact allFinite_replaceBranch hb hn (ih (allFinite_branch hb hn) _ rfl)
  | merge _ _ ih => exact ih hn
  | closeLeft =>
    rintro c ⟨⟩
    exact hn.2
  | closeRight =>
    rintro c ⟨⟩
    exact hn.1
  | vanish => rintro c ⟨⟩

/-- Runs keep numbers finite if the placeholder has finite ones. -/
theorem Desk.allFinite_run {d : Desk} (hp : d.editor.defaults.placeholder.AllFinite)
    (h : ∀ c ∈ d.tree, c.AllFinite) (rs : List Request) : ∀ c ∈ (d.run rs).tree, c.AllFinite := by
  refine tree_run (fun e root c path intent hd hroot hr => ?_) h rs
  have hrow : e.defaults.placeholder.AllFinite := hd ▸ hp
  exact Edits.allFinite (e := e.observed root) hrow (apply_eq_ok_iff.mp hr) hroot c rfl

theorem allFinite_placeholder_iff {config : Config} :
    config.editDefaults.placeholder.AllFinite ↔ config.placeholder.value.isFinite :=
  ⟨fun h => h.2, fun h => ⟨trivial, h⟩⟩

/-- An addition brings the placeholder in, whatever its value is. -/
theorem run_addExpression (config : Config) :
    (Desk.run ⟨⟨config.editDefaults, {}⟩, some emptyComparison⟩ [⟨[], .addExpression⟩]).tree =
      some (boolean config.operator emptyComparison config.editDefaults.placeholder) := rfl

theorem ofJson_emptyComparison : ofJson emptyComparison.toJson = .ok emptyComparison := by
  have hfinite : emptyComparison.AllFinite := ⟨trivial, rfl⟩
  exact decode_toJson hfinite []

/-- **What the editor makes can be saved and loaded again exactly if the placeholder is finite.** With the editor of
any settings, all trees that runs come to from a tree that was loaded have finite numbers and are read back from their
JSON form as equal ones, if and only if the value of the placeholder is a finite number. -/
theorem runs_load_iff (config : Config) :
    (∀ (v : Json) (root : Condition) (s : Session) (rs : List Request), ofJson v = .ok root →
      ∀ c ∈ (Desk.run ⟨⟨config.editDefaults, s⟩, some root⟩ rs).tree,
        c.AllFinite ∧ ∃ c', ofJson c.toJson = .ok c' ∧ c'.equal c) ↔
      config.placeholder.value.isFinite := by
  constructor
  · intro h
    -- one addition to a tree that loads is enough to see the placeholder
    obtain ⟨hc, -⟩ := h _ _ {} [⟨[], .addExpression⟩] ofJson_emptyComparison _ (run_addExpression config)
    exact allFinite_placeholder_iff.mp hc.2
  · intro hx v root s rs hv c hc
    have hfinite : c.AllFinite := by
      refine Desk.allFinite_run (allFinite_placeholder_iff.mpr hx) ?_ rs c hc
      rintro root' ⟨⟩
      exact allFinite_of_ofJson hv
    exact ⟨hfinite, ofJson_toJson_iff.mpr hfinite⟩

/-- A text may give the placeholder an infinite value, and one addition then makes a tree that cannot be loaded. -/
theorem infinite_placeholder_not_loaded : ∃ config c,
    Config.ofText? "\x7bplaceholder:\x7bvalue:Infinity\x7d\x7d" = some config ∧
      ofJson emptyComparison.toJson = .ok emptyComparison ∧
      (Desk.run ⟨⟨config.editDefaults, {}⟩, some emptyComparison⟩ [⟨[], .addExpression⟩]).tree = some c ∧
      ∀ c', ofJson c.toJson ≠ .ok c' := by
  refine ⟨{ placeholder := { value := .infinite false } }, _, by decide +kernel, ofJson_emptyComparison,
    run_addExpression _, fun c' h => ?_⟩
  have hplaceholder := (allFinite_of_decode_toJson h).2
  exact absurd (allFinite_placeholder_iff.mp hplaceholder) (by decide)

end ConditionTree
