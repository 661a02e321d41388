import ConditionTree.Proofs.Uniform

/-!
# What a session remembers

The override of a session is the connective last chosen for a whole tree. On any tree a step changes it in two ways
only (`override_apply`): the session drops it at a root that says otherwise, and a choice that succeeds replaces it.

A desk is settled once its tree fits the override. One step settles a desk with a uniform tree, and every further step
keeps it so: what an addition puts at the root has the override, and a survivor of a deletion has the connective of
the root that it replaces. From then on nothing is dropped, so the override is the last choice of the run
(`override_lost_only_outside`).
-/

namespace ConditionTree

open Condition

variable {e : Editor} {intent : Intent} {root c : Condition} {path : Path} {new : Option Condition}

/-! ### A single step -/

/-- A session keeps its override at a root that fits it. -/
theorem observe_eq_self {s : Session} (h : root.Fits s.override) : s.observe root = s := by
  cases root with
  | boolean o l r =>
    cases hs : s.override with
    | none => simp [Session.observe, hs]
    | some chosen => simp [Session.observe, hs, h chosen hs]
  | _ => cases hs : s.override <;> simp [Session.observe, hs]

/-- What a session drops is an override that a boolean root contradicts. -/
theorem dropped_of_observe_ne {s : Session} (h : (s.observe root).override ≠ s.override) :
    (s.observe root).override = none ∧
      ∃ o l r chosen, root = boolean o l r ∧ s.override = some chosen ∧ o ≠ chosen := by
  cases root with
  | boolean o l r =>
    cases hs : s.override with
    | none => simp [Session.observe, hs] at h
    | some chosen =>
      have ho : o ≠ chosen := by
        rintro rfl
        simp [Session.observe, hs] at h
      exact ⟨by simp [Session.observe, hs, ho], o, l, r, chosen, rfl, rfl, ho⟩
  | _ => exact absurd (congrArg Session.override (observe_eq_self (by trivial))) h

/-- The connective that an intent chooses for a whole tree, if it succeeds in that: the root is no group, which has
a connective of its own. -/
def Editor.chosen? (e : Editor) (root : Condition) (path : Path) (intent : Intent) :
    Option Connective :=
  match intent, (e.apply root path intent).2 with
  | .setConnective o, .ok _ => if path = [] ∧ root.isGroup = false then some o else none
  | _, _ => none

theorem chosen?_eq_some_iff {o : Connective} : e.chosen? root path intent = some o ↔
    intent = .setConnective o ∧ path = [] ∧ root.isGroup = false ∧
      ∃ new, (e.apply root path intent).2 = .ok new := by
  cases intent with
  | setConnective o' =>
    cases hr : (e.apply root path (.setConnective o')).2 with
    | ok new =>
      simp only [Editor.chosen?, hr, Option.ite_none_right_eq_some, Option.some.injEq,
        Intent.setConnective.injEq, Except.ok.injEq, exists_eq', and_true]
      tauto
    | error error => simp [Editor.chosen?, hr]
  | _ => simp [Editor.chosen?]

/-- **The override after a step on any tree.** -/
theorem override_apply : (e.apply root path intent).1.session.override =
    (e.chosen? root path intent).or (e.session.observe root).override := by
  cases hr : (e.apply root path intent).2 with
  | ok new =>
    rw [apply_fst_of_ok hr]
    cases intent with
    | setConnective o =>
      simp only [Editor.chosen?, Editor.remember, hr]
      cases hg : root.isGroup <;> by_cases hp : path = [] <;> simp [hp]
    | _ => simp [Editor.chosen?, Editor.remember]
  | error error =>
    rw [apply_fst_of_error hr]
    cases intent <;> simp [Editor.chosen?, Editor.observed, hr]

/-- At the root, additions join with what the session remembers. -/
theorem effective_of_override {o : Connective} (h : o ∈ e.session.override) :
    e.effective none root = o := by
  have ho : e.session.override = some o := h
  simp [Editor.effective, Session.effective, ho]

/-- What a step leaves at the root fits what the session remembers then. -/
theorem fits_override_of_apply (hu : root.Uniform) (h : (e.apply root path intent).2 = .ok (some c)) :
    c.Fits (e.apply root path intent).1.session.override := by
  have hroot := fits_observe e.session root
  rw [apply_fst_of_ok h]
  cases apply_eq_ok_iff.mp h with
  | site hs =>
    cases hs with
    | addExpression | addGroup => exact fun o ho => (effective_of_override ho).symm
    | setGroup | setComparator | setValue | setReference => trivial
    | setRoot o hp hg => simpa [Editor.remember, hg] using fits_align root o
  | within => simpa [fits_replaceBranch] using hroot
  | merge _ hg => exact fits_of_isGroup hg
  -- a survivor has the connective of the root, to which the session agrees by now
  | closeLeft => simpa using hu.2.1.mono hroot
  | closeRight => simpa using hu.1.1.mono hroot

/-! ### Runs -/

namespace Desk

variable {d : Desk} {r : Request}

/-- The connective that a request chooses for the whole tree on the desk. -/
def choice? (d : Desk) (r : Request) : Option Connective :=
  d.tree.bind fun root => d.editor.chosen? root r.path r.intent

/-- The connectives that were chosen for the whole tree in a run. -/
def choices (d : Desk) : List Request → List Connective
  | [] => []
  | r :: rs => (d.choice? r).toList ++ (d.step r).choices rs

theorem getLast?_choices_cons (d : Desk) (r : Request) (rs : List Request) :
    (d.choices (r :: rs)).getLast? = ((d.step r).choices rs).getLast?.or (d.choice? r) := by
  rw [choices, List.getLast?_append]
  cases d.choice? r <;> rfl

/-- The session has nothing against the tree on the desk. -/
structure Settled (d : Desk) : Prop extends Ready d where
  fits : ∀ c ∈ d.tree, c.Fits d.editor.session.override

/-- One step settles a desk. -/
theorem Ready.settled_step (h : d.Ready) (r : Request) : (d.step r).Settled := by
  refine ⟨h.run [r], fun c hc => ?_⟩
  obtain ⟨root, hroot, heditor, hr | ⟨rfl, error, hr⟩⟩ := exists_edit_of_mem_step hc
  · rw [heditor]
    exact fits_override_of_apply (h.uniform root hroot) hr
  · rw [heditor, apply_fst_of_error hr]
    exact fits_observe _ _

theorem Settled.run (h : d.Settled) (rs : List Request) : (d.run rs).Settled :=
  run_induction (fun _ r hd => hd.toReady.settled_step r) rs d h

/-- A settled desk loses no override: it changes by choices alone. -/
theorem Settled.override_step (h : d.Settled) (r : Request) :
    (d.step r).editor.session.override = (d.choice? r).or d.editor.session.override := by
  cases ht : d.tree with
  | none => simp [step_of_none ht, choice?, ht]
  | some root =>
    rw [step_of_some ht, override_apply, observe_eq_self (h.fits root ht)]
    simp [choice?, ht]

/-- The override after a run of a settled desk is the last choice. -/
theorem Settled.override_run (h : d.Settled) (rs : List Request) :
    (d.run rs).editor.session.override = (d.choices rs).getLast?.or d.editor.session.override := by
  induction rs generalizing d with
  | nil => rfl
  | cons r rs ih =>
    rw [run_cons, ih (h.toReady.settled_step r), h.override_step r, getLast?_choices_cons,
      Option.or_assoc]

/-- The override after a run that starts at any session: the last choice, or what the first step left. -/
theorem Ready.override_run (h : d.Ready) {root : Condition} (ht : d.tree = some root) (r : Request)
    (rs : List Request) : (d.run (r :: rs)).editor.session.override =
      (d.choices (r :: rs)).getLast?.or (d.editor.session.observe root).override := by
  rw [run_cons, (h.settled_step r).override_run rs, getLast?_choices_cons, Option.or_assoc,
    step_of_some ht, override_apply]
  simp [choice?, ht]

end Desk

/-- **An override is lost only through a tree changed from outside.** On a valid tree with uniform chains the session
has nothing to drop at any step after the first, so that the override after a run is the connective last chosen for
the whole tree, or what the first step left. On any tree a step can only drop an override that the root contradicts
or put the one that it chooses in place of it. -/
theorem override_lost_only_outside :
    (∀ (d : Desk) (root : Condition), d.tree = some root → d.editor.defaults.placeholder.IsRow →
      root.validate = [] → root.Uniform →
      (∀ rs, rs ≠ [] → ∀ c ∈ (d.run rs).tree,
        (d.run rs).editor.session.observe c = (d.run rs).editor.session) ∧
      ∀ r rs, (d.run (r :: rs)).editor.session.override =
        (d.choices (r :: rs)).getLast?.or (d.editor.session.observe root).override) ∧
    ∀ (e : Editor) (root : Condition) (path : Path) (intent : Intent),
      (e.apply root path intent).1.session.override ≠ e.session.override →
      ((e.apply root path intent).1.session.override = none ∧
        ∃ o l r chosen, root = boolean o l r ∧ e.session.override = some chosen ∧ o ≠ chosen) ∨
      ∃ o, (e.apply root path intent).1.session.override = some o ∧ intent = .setConnective o ∧
        path = [] ∧ root.isGroup = false ∧ ∃ new, (e.apply root path intent).2 = .ok new := by
  constructor
  · intro d root ht hp hv hu
    have hready : d.Ready :=
      Desk.ready_of_tree ht hp (validate_eq_nil_iff.mp hv .nonOperand) hu
    refine ⟨fun rs hne c hc => ?_, fun r rs => hready.override_run ht r rs⟩
    obtain ⟨r, rs, rfl⟩ := List.exists_cons_of_ne_nil hne
    exact observe_eq_self (((hready.settled_step r).run rs).fits c hc)
  · intro e root path intent hne
    rw [override_apply] at hne ⊢
    cases hc : e.chosen? root path intent with
    | none =>
      rw [hc, Option.none_or] at hne
      exact .inl (dropped_of_observe_ne hne)
    | some o => exact .inr ⟨o, rfl, chosen?_eq_some_iff.mp hc⟩

/-- A contradicted override is dropped in the first step, though the step fails, and the one chosen in the second
outlives a failure and a deletion that leaves no boolean root. -/
theorem chosen_override_outlives_the_chain :
    (default : EditDefaults).placeholder.IsRow ∧ (joinedRows .and).validate = [] ∧
    (joinedRows .and).Uniform ∧
    (Editor.apply ⟨default, ⟨some .or⟩⟩ (joinedRows .and) [.child] .delete).1.session.override = none ∧
    (Desk.run ⟨⟨default, ⟨some .or⟩⟩, some (joinedRows .and)⟩
      [⟨[.child], .delete⟩, ⟨[], .setConnective .or⟩]).tree = some (joinedRows .or) ∧
    (Session.mk (some .or)).observe (joinedRows .or) = ⟨some .or⟩ ∧
    (Desk.run ⟨⟨default, ⟨some .or⟩⟩, some (joinedRows .and)⟩ [⟨[.child], .delete⟩,
      ⟨[], .setConnective .or⟩, ⟨[.child], .delete⟩, ⟨[.left], .delete⟩]).tree = some emptyComparison ∧
    (Desk.run ⟨⟨default, ⟨some .or⟩⟩, some (joinedRows .and)⟩ [⟨[.child], .delete⟩,
      ⟨[], .setConnective .or⟩, ⟨[.child], .delete⟩, ⟨[.left], .delete⟩]).editor.session.override =
        some .or := by
  have hp : (default : EditDefaults).placeholder.IsRow := by decide
  have hu : (joinedRows .and).Uniform := by decide
  obtain ⟨hruns, hsteps⟩ := override_lost_only_outside
  obtain ⟨hobserve, hlast⟩ := hruns ⟨⟨default, ⟨some .or⟩⟩, some (joinedRows .and)⟩ _ rfl hp rfl hu
  refine ⟨hp, rfl, hu, ?_, rfl, ?_, rfl, hlast _ _⟩
  · have hne : (Editor.apply ⟨default, ⟨some .or⟩⟩ (joinedRows .and) [.child]
        .delete).1.session.override ≠ some .or := by decide
    obtain ⟨hdropped, -⟩ | ⟨o, -, hchoice, -⟩ := hsteps ⟨default, ⟨some .or⟩⟩ _ _ _ hne
    · exact hdropped
    · cases hchoice
  · exact hobserve [⟨[.child], .delete⟩, ⟨[], .setConnective .or⟩] (List.cons_ne_nil _ _) _ rfl

end ConditionTree
