import ConditionTree.Proofs.Alternation
import ConditionTree.Proofs.Deletion
import ConditionTree.Proofs.Enclosing
import ConditionTree.Proofs.Sites
import ConditionTree.Proofs.Uniform

/-!
# Edits of alternating trees

Which connective a place asks for follows from the way to it: each pair of brackets on the way turns the connective of
the whole tree into the other one (`Path.context`). In a tree that alternates this is the connective of the node above
the place, which is the one that an addition joins with (`joint_eq_context`), and a tree alternates after a replacement
exactly if the new node alternates for the context of its place (`alternating_replaceAt_iff`).

So all edits keep the tree alternating (`edits_keep_polarity`), but for the choice of a connective and for one kind of
deletion: a group that is left over right below another group has the polarity of a place inside of that group and
comes to stand outside of it.
-/

namespace ConditionTree

open Condition

/-- The context below a branch. Brackets turn the connective into the other one. -/
def Branch.context (o : Connective) : Branch → Connective
  | .child => o.complement
  | _ => o

/-- The context at the end of a path, if the root stands in the given one. -/
def Path.context (o : Connective) (path : Path) : Connective :=
  path.foldl Branch.context o

theorem Path.context_append (o : Connective) (p q : Path) :
    Path.context o (p ++ q) = Path.context (Path.context o p) q :=
  List.foldl_append

namespace Condition

variable {root node child new n : Condition} {b : Branch} {path rest : Path} {o : Connective}

/-! ### Places in alternating trees -/

theorem alternating_of_isRow (h : node.IsRow) : node.Alternating o := by
  cases node with
  | comparison => trivial
  | _ => cases h

theorem alternating_branch (h : node.Alternating o) (hb : node.branch? b = some child)
    (hk : node.kind ≠ .comparison) : child.Alternating (Branch.context o b) := by
  cases branch?_eq_some_iff.mp hb with
  | comparisonLeft | comparisonRight => exact absurd rfl hk
  | booleanLeft => exact h.2.1
  | booleanRight => exact h.2.2
  | groupChild => exact h.2

/-- The connective that a node hands on is the one of the context of its branches. -/
theorem connective?_of_alternating (h : node.Alternating o) (hb : node.branch? b = some child)
    (hk : node.kind ≠ .comparison) : node.connective? = some (Branch.context o b) := by
  cases branch?_eq_some_iff.mp hb with
  | comparisonLeft | comparisonRight => exact absurd rfl hk
  | booleanLeft | booleanRight | groupChild => exact congrArg some h.1

theorem alternating_replaceBranch_iff (h : node.Alternating o) (hb : node.branch? b = some child)
    (hk : node.kind ≠ .comparison) :
    (node.replaceBranch b new).Alternating o ↔ new.Alternating (Branch.context o b) := by
  cases branch?_eq_some_iff.mp hb with
  | comparisonLeft | comparisonRight => exact absurd rfl hk
  | booleanLeft => exact ⟨fun hnew => hnew.2.1, fun hnew => ⟨h.1, hnew, h.2.2⟩⟩
  | booleanRight => exact ⟨fun hnew => hnew.2.2, fun hnew => ⟨h.1, h.2.1, hnew⟩⟩
  | groupChild => exact ⟨fun hnew => hnew.2, fun hnew => ⟨h.1, hnew⟩⟩

theorem alternating_get? : ∀ {path : Path} {root n : Condition} {o : Connective}, root.Alternating o →
    root.OutsideComparisons path → root.get? path = some n → n.Alternating (path.context o)
  | [], root, n, o, h, _, hn => by
    cases (get?_nil root).symm.trans hn
    exact h
  | b :: rest, root, n, o, h, hout, hn => by
    obtain ⟨child, hb, hchild⟩ := get?_cons_eq_some_iff.mp hn
    obtain ⟨hk, hrest⟩ := (outsideComparisons_cons hb).mp hout
    have hbelow := alternating_get? (alternating_branch h hb hk) hrest hchild
    exact hbelow

/-- **Outside of comparisons, a replacement keeps a tree alternating exactly if the new node alternates for the context
of its place.** -/
theorem alternating_replaceAt_iff : ∀ {path : Path} {root n : Condition} {o : Connective}, root.Alternating o →
    root.OutsideComparisons path → root.get? path = some n →
      ((root.replaceAt path new).Alternating o ↔ new.Alternating (path.context o))
  | [], root, n, o, _, _, _ => by
    rw [replaceAt_nil]
    rfl
  | b :: rest, root, n, o, h, hout, hn => by
    obtain ⟨child, hb, hchild⟩ := get?_cons_eq_some_iff.mp hn
    obtain ⟨hk, hrest⟩ := (outsideComparisons_cons hb).mp hout
    rw [replaceAt_cons hb, alternating_replaceBranch_iff h hb hk]
    have hbelow := alternating_replaceAt_iff (alternating_branch h hb hk) hrest hchild
    exact hbelow

/-- Inside of comparisons anything can be put in. -/
theorem alternating_replaceAt : ∀ {path : Path} {root n : Condition} {o : Connective}, root.Alternating o →
    root.get? path = some n → (root.OutsideComparisons path → new.Alternating (path.context o)) →
      (root.replaceAt path new).Alternating o
  | [], root, n, o, _, _, hnew => by
    rw [replaceAt_nil]
    exact hnew (by simp [OutsideComparisons])
  | b :: rest, root, n, o, h, hn, hnew => by
    obtain ⟨child, hb, hchild⟩ := get?_cons_eq_some_iff.mp hn
    rw [replaceAt_cons hb]
    by_cases hk : root.kind = .comparison
    · cases root with
      | comparison => cases b <;> trivial
      | _ => cases hk
    · rw [alternating_replaceBranch_iff h hb hk]
      exact alternating_replaceAt (alternating_branch h hb hk) hchild fun hrest =>
        hnew ((outsideComparisons_cons hb).mpr ⟨hk, hrest⟩)

/-- The node above a place hands on the connective of the context there. -/
theorem parent?_of_alternating (h : root.Alternating o) (hout : root.OutsideComparisons (path ++ [b]))
    (hn : root.get? (path ++ [b]) = some n) :
    (root.parent? (path ++ [b])).bind connective? = some (Path.context o (path ++ [b])) := by
  obtain ⟨a, ha, hb⟩ := get?_concat_eq_some_iff.mp hn
  have hcontext := alternating_get? h hout.of_append ha
  rw [parent?_concat, ha, Option.bind_some, connective?_of_alternating hcontext hb (hout.kind_ne ha),
    Path.context_append]
  rfl

/-- The survivor of the deletion at a path is a group and comes to stand right below a group, which gives way to it. -/
def MergesGroups (root : Condition) (path : Path) : Prop :=
  ∃ A b rest other s, path = A ++ b :: rest ∧ root.nonGroupAbove? path = some A ∧ b.sibling? = some other ∧
    root.get? (A ++ [other]) = some s ∧ s.isGroup ∧ (root.parent? A).any isGroup

end Condition

/-- The edits that do not change the polarity of a tree: all edits of comparisons and leaves, additions below the root or
to a boolean root, and deletions that do not merge groups. -/
def Intent.KeepsPolarity (root : Condition) (path : Path) : Intent → Prop
  | addExpression | addGroup => path ≠ [] ∨ root.kind = .boolean
  | delete => ¬ root.MergesGroups path
  | setComparator _ | setValue _ | setReference _ => True
  | setConnective _ => False

variable {e : Editor} {intent : Intent} {root n c : Condition} {path A : Path} {o : Connective}

/-! ### What edits keep -/

/-- **Additions join with the connective of the context**, below the root and at a boolean root. -/
theorem joint_eq_context (h : root.Alternating o) (hout : root.OutsideComparisons path)
    (hn : root.get? path = some n) (hk : path ≠ [] ∨ root.kind = .boolean) :
    e.joint root path n = path.context o := by
  obtain rfl | ⟨p, b, rfl⟩ := List.eq_nil_or_concat' path
  · cases root with
    | boolean o' l r =>
      cases hn
      -- the session has nothing against the root by now
      have hfits : ∀ o'' ∈ (e.session.observe (boolean o' l r)).override, o'' = o' :=
        fits_observe e.session (boolean o' l r)
      cases hs : (e.session.observe (boolean o' l r)).override with
      | none => simpa [Editor.joint, hs, ownConnective?, Path.context] using h.1
      | some chosen =>
        have hchosen := hfits chosen hs
        simpa [Editor.joint, hs, Path.context, hchosen] using h.1
    | _ => simp [kind] at hk
  · rw [Editor.joint, parent?_of_alternating h hout hn]
    rfl

theorem Intent.Makes.alternating (hp : e.defaults.placeholder.IsRow) (h : root.Alternating o)
    (hout : root.OutsideComparisons path) (hn : root.get? path = some n) (hi : intent.KeepsPolarity root path)
    (hmakes : intent.Makes e root path n c) : c.Alternating (path.context o) := by
  have hold := alternating_get? h hout hn
  cases intent with
  | addExpression =>
    cases hmakes
    exact ⟨joint_eq_context h hout hn hi, hold, alternating_of_isRow hp⟩
  | addGroup =>
    cases hmakes
    have hjoint : e.joint root path n = path.context o := joint_eq_context h hout hn hi
    exact ⟨hjoint, hold, congrArg _ hjoint, alternating_of_isRow hp⟩
  | delete => cases hmakes
  | setConnective => cases hi
  | setComparator =>
    obtain ⟨_, _, _, -, rfl⟩ := hmakes
    trivial
  | setValue | setReference =>
    obtain ⟨_, -, rfl⟩ := hmakes
    trivial

/-! ### What deletions keep -/

theorem Condition.mergesGroups_iff {b other : Branch} {rest : Path} {s : Condition}
    (hA : root.nonGroupAbove? (A ++ b :: rest) = some A) (hother : b.sibling? = some other)
    (hs : root.get? (A ++ [other]) = some s) :
    root.MergesGroups (A ++ b :: rest) ↔ s.isGroup ∧ (root.parent? A).any isGroup := by
  constructor
  · rintro ⟨A', b', rest', other', s', hpath, hA', hother', hs', hmerge⟩
    cases hA.symm.trans hA'
    cases List.append_cancel_left hpath
    cases hother.symm.trans hother'
    cases hs.symm.trans hs'
    exact hmerge
  · exact fun hmerge => ⟨A, b, rest, other, s, rfl, hA, hother, hs, hmerge⟩

/-- A survivor stood in the context of the boolean node around it. -/
theorem Condition.alternating_survivor {o' : Connective} {l r s : Condition} {other : Branch}
    (h : root.Alternating o) (hout : root.OutsideComparisons A) (ha : root.get? A = some (boolean o' l r))
    (hs : root.get? (A ++ [other]) = some s) : s.Alternating (A.context o) := by
  obtain ⟨a, ha', hb⟩ := get?_concat_eq_some_iff.mp hs
  cases ha.symm.trans ha'
  have hboolean := alternating_get? h hout ha
  cases branch?_eq_some_iff.mp hb with
  | booleanLeft => exact hboolean.2.1
  | booleanRight => exact hboolean.2.2

/-- A group that takes the place of the one around it has the polarity of a place inside of that one. -/
theorem Condition.not_alternating_of_merged {a s : Condition} (h : root.Alternating o)
    (hout : root.OutsideComparisons A) (ha : root.get? A = some a) (hs : s.Alternating (A.context o))
    (hgroup : s.isGroup) (hparent : (root.parent? A).any isGroup) :
    ¬ (root.replaceAt A.dropLast s).Alternating o := by
  obtain rfl | ⟨p, b, rfl⟩ := List.eq_nil_or_concat' A
  · cases hparent
  obtain ⟨c, hc, hb⟩ := get?_concat_eq_some_iff.mp ha
  have hcg : c.isGroup := by simpa [hc] using hparent
  have hinside : Path.context o (p ++ [b]) = (Path.context o p).complement := by
    rw [Path.context_append]
    cases branch?_eq_some_iff.mp hb with
    | groupChild => rfl
    | _ => cases hcg
  rw [List.dropLast_concat, alternating_replaceAt_iff h hout.of_append hc]
  rw [hinside] at hs
  cases s with
  | group o' x =>
    intro hplace
    have hsame : (Path.context o p).complement = (Path.context o p).complement.complement :=
      hplace.1.symm.trans hs.1
    exact Connective.complement_ne _ hsame.symm
  | _ => cases hgroup

theorem Condition.alternating_iff_of_foldAlong_none {t : Condition} (hg : root.breaches .nestedGroup = 0)
    (h : root.Alternating o) (hout : root.OutsideComparisons path) (hn : root.get? path = some n)
    (hup : root.foldAlong path none = .ok (some t)) : t.Alternating o ↔ ¬ root.MergesGroups path := by
  cases hA : root.nonGroupAbove? path with
  | none =>
    rw [foldAlong_none_of_groups hn hA] at hup
    cases hup
  | some A =>
    obtain ⟨b, rest, rfl, ⟨_, _, _, -, hremoved⟩ | ⟨o', l, r, other, s, ha, hother, hs, hsurvivor⟩⟩ :=
      foldAlong_none hn hA
    · rw [hremoved] at hup
      cases hup
    · rw [hsurvivor, foldAlong_survivor hg ha] at hup
      cases hup
      have houtA : root.OutsideComparisons A := hout.of_append
      have hcontext : s.Alternating (A.context o) := alternating_survivor h houtA ha hs
      rw [mergesGroups_iff hA hother hs, survivorPlace]
      split_ifs with hmerge
      · have hnot := not_alternating_of_merged h houtA ha hcontext hmerge.1 hmerge.2
        simp [hnot, hmerge]
      · rw [alternating_replaceAt_iff h houtA ha]
        exact ⟨fun _ => hmerge, fun _ => hcontext⟩

theorem Condition.alternating_iff_of_delete {t : Condition} (hv : root.validate = []) (h : root.Alternating o)
    (hdelete : (e.apply root path .delete).2 = .ok (some t)) : t.Alternating o ↔ ¬ root.MergesGroups path := by
  have hbreaches := validate_eq_nil_iff.mp hv
  obtain ⟨n, update, hn, hsite, hup⟩ := exists_site_of_apply hdelete
  cases hsite with
  | delete hk =>
    have hout := outsideComparisons_of_breaches (hbreaches .nonOperand) hn hk
    exact alternating_iff_of_foldAlong_none (hbreaches .nestedGroup) h hout hn hup

/-! ### From the root -/

theorem alternating_of_apply {new : Option Condition} (hp : e.defaults.placeholder.IsRow) (hv : root.validate = [])
    (h : root.Alternating o) (hi : intent.KeepsPolarity root path) (happly : (e.apply root path intent).2 = .ok new) :
    ∀ t ∈ new, t.Alternating o := by
  rintro t rfl
  by_cases hdelete : intent = .delete
  · subst hdelete
    exact (alternating_iff_of_delete hv h happly).mpr hi
  · have hg := validate_eq_nil_iff.mp hv .nestedGroup
    obtain ⟨n, c, hn, hmakes, hnew⟩ := apply_eq_replaceAt hg hdelete happly
    cases hnew
    exact alternating_replaceAt h hn fun hout => hmakes.alternating hp h hout hn hi

namespace Desk

/-- Each request of a run is one that keeps the polarity of the tree that it meets. -/
def KeepsPolarity (d : Desk) : List Request → Prop
  | [] => True
  | r :: rs => (∀ root ∈ d.tree, r.intent.KeepsPolarity root r.path) ∧ (d.step r).KeepsPolarity rs

variable {d : Desk} {r : Request}

theorem alternating_step (hp : d.editor.defaults.placeholder.IsRow) (hv : ∀ c ∈ d.tree, c.validate = [])
    (h : ∀ c ∈ d.tree, c.Alternating o) (hr : ∀ c ∈ d.tree, r.intent.KeepsPolarity c r.path) :
    ∀ c ∈ (d.step r).tree, c.Alternating o := by
  intro c hc
  obtain ⟨root, hroot, -, happly | ⟨rfl, -⟩⟩ := exists_edit_of_mem_step hc
  · exact alternating_of_apply hp (hv root hroot) (h root hroot) (hr root hroot) happly c rfl
  · exact h c hroot

/-- A tree that alternates does so after any run that keeps its polarity. -/
theorem alternating_run : ∀ (rs : List Request) {d : Desk}, d.editor.defaults.placeholder.IsRow →
    (∀ c ∈ d.tree, c.validate = []) → (∀ c ∈ d.tree, c.Alternating o) → d.KeepsPolarity rs →
      ∀ c ∈ (d.run rs).tree, c.Alternating o
  | [], _, _, _, h, _ => h
  | r :: rs, d, hp, hv, h, hrs => by
    have hstep := alternating_step hp hv h hrs.1
    have hvalid : ∀ c ∈ (d.step r).tree, c.validate = [] := validate_run hp hv [r]
    exact alternating_run rs (by rwa [defaults_step]) hvalid hstep hrs.2

end Desk

/-- A connective chosen at the root is that of the whole tree, or of all that a group at the root holds. -/
theorem exists_alternating_of_setConnective (e : Editor) (root : Condition) (o : Connective) :
    ∃ t, (e.apply root [] (.setConnective o)).2 = .ok (some t) ∧
      t.Alternating (if root.isGroup then o.complement else o) := by
  rw [apply_of_get? (get?_nil root), parent?_nil]
  cases hg : root.isGroup with
  | true =>
    cases root with
    | group o' child =>
      refine ⟨group o (child.align o), rfl, ?_⟩
      show o = o.complement.complement ∧ (child.align o).Alternating o.complement.complement
      rw [Connective.complement_complement]
      exact ⟨rfl, alternating_align child o⟩
    | _ => cases hg
  | false =>
    have hsite : (e.observed root).editNode (.setConnective o) none [] root = .ok (some (root.align o)) :=
      editNode_eq_ok_iff.mpr (.setRoot o rfl hg)
    refine ⟨root.align o, ?_, alternating_align root o⟩
    rw [hsite, Except.bind, foldAlong_nil]
    rfl

/-- A comparison at the root is in every context, so an addition to it decides on one. -/
theorem exists_alternating_of_addition (hp : e.defaults.placeholder.IsRow) (hk : root.kind = .comparison)
    (hi : intent = .addExpression ∨ intent = .addGroup) :
    ∃ t, (e.apply root [] intent).2 = .ok (some t) ∧ t.Alternating ((e.observed root).effective none root) := by
  rw [apply_of_get? (get?_nil root)]
  cases root with
  | comparison o' l r =>
    rcases hi with rfl | rfl
    · exact ⟨_, rfl, rfl, trivial, alternating_of_isRow hp⟩
    · exact ⟨_, rfl, rfl, trivial, rfl, alternating_of_isRow hp⟩
  | _ => cases hk

/-- **Edits keep the polarity of a tree.** Of a valid tree that alternates, every edit of a comparison or a leaf, every
addition below the root or to a boolean root and every deletion that does not merge groups leaves a tree that
alternates for the same connective, if any is left, and so does a whole run of such edits; a deletion that merges groups
never does. A connective chosen at the root makes the tree alternate for it, or for its complement around a group. An
addition to a comparison that is the whole tree makes it alternate for the connective that it joins with. -/
theorem edits_keep_polarity (hp : e.defaults.placeholder.IsRow) (hv : root.validate = []) (h : root.Alternating o) :
    (∀ (path : Path) (intent : Intent) (new : Option Condition), intent.KeepsPolarity root path →
      (e.apply root path intent).2 = .ok new → ∀ t ∈ new, t.Alternating o) ∧
    (∀ rs, Desk.KeepsPolarity ⟨e, some root⟩ rs →
      ∀ t ∈ (Desk.run ⟨e, some root⟩ rs).tree, t.Alternating o) ∧
    (∀ (path : Path) (t : Condition), root.MergesGroups path →
      (e.apply root path .delete).2 = .ok (some t) → ¬ t.Alternating o) ∧
    (∀ o', ∃ t, (e.apply root [] (.setConnective o')).2 = .ok (some t) ∧
      t.Alternating (if root.isGroup then o'.complement else o')) ∧
    (root.kind = .comparison → ∀ intent, intent = .addExpression ∨ intent = .addGroup →
      ∃ t, (e.apply root [] intent).2 = .ok (some t) ∧
        t.Alternating ((e.observed root).effective none root)) := by
  refine ⟨fun path intent new hi happly => alternating_of_apply hp hv h hi happly, fun rs hrs => ?_, ?_, ?_, ?_⟩
  · refine Desk.alternating_run rs hp ?_ ?_ hrs
    · rintro c ⟨⟩
      exact hv
    · rintro c ⟨⟩
      exact h
  · exact fun path t hmerges hdelete ht => (alternating_iff_of_delete hv h hdelete).mp ht hmerges
  · exact exists_alternating_of_setConnective e root
  · exact fun hk intent hi => exists_alternating_of_addition hp hk hi

/-- A row beside brackets that hold a row beside brackets. -/
def Condition.alternatingRows : Condition :=
  boolean .and emptyComparison (group .or (boolean .or (group .and emptyComparison) emptyComparison))

/-- Whatever the session remembers, a group added inside of brackets fits there, and brackets that are left over at the
root fit the place of the root; inside of other brackets they do not. -/
theorem leftover_group_fits_outside_brackets :
    (default : EditDefaults).placeholder.IsRow ∧
    alternatingRows.validate = [] ∧ alternatingRows.Alternating .and ∧
    (Editor.apply ⟨default, ⟨some .or⟩⟩ alternatingRows [.right, .child, .left] .addGroup).2 =
      .ok (some (boolean .and emptyComparison (group .or (boolean .or
        (boolean .or (group .and emptyComparison) (group .and emptyComparison)) emptyComparison)))) ∧
    (boolean .and emptyComparison (group .or (boolean .or
      (boolean .or (group .and emptyComparison) (group .and emptyComparison)) emptyComparison))).Alternating .and ∧
    ¬ alternatingRows.MergesGroups [.left] ∧
    (Editor.apply ⟨default, ⟨some .or⟩⟩ alternatingRows [.left] .delete).2 =
      .ok (some (group .or (boolean .or (group .and emptyComparison) emptyComparison))) ∧
    (group .or (boolean .or (group .and emptyComparison) emptyComparison)).Alternating .and ∧
    alternatingRows.MergesGroups [.right, .child, .right] ∧
    (Editor.apply ⟨default, ⟨some .or⟩⟩ alternatingRows [.right, .child, .right] .delete).2 =
      .ok (some (boolean .and emptyComparison (group .and emptyComparison))) ∧
    ¬ (boolean .and emptyComparison (group .and emptyComparison)).Alternating .and ∧
    (∀ t ∈ (Desk.run ⟨⟨default, ⟨some .or⟩⟩, some alternatingRows⟩
      [⟨[.right, .child, .left], .addGroup⟩, ⟨[], .addExpression⟩]).tree, t.Alternating .and) ∧
    (∃ t, (Editor.apply ⟨default, ⟨some .or⟩⟩ alternatingRows [] (.setConnective .or)).2 = .ok (some t) ∧
      t.Alternating .or) ∧
    emptyComparison.validate = [] ∧ emptyComparison.Alternating .and ∧ emptyComparison.kind = .comparison ∧
    ∃ t, (Editor.apply ⟨default, ⟨some .or⟩⟩ emptyComparison [] .addGroup).2 = .ok (some t) ∧
      t.Alternating .or := by
  have hp : (default : EditDefaults).placeholder.IsRow := by decide
  have hv : alternatingRows.validate = [] := rfl
  have h : alternatingRows.Alternating .and := by decide
  obtain ⟨hkeeps, hrun, hmerges, hchoice, -⟩ := edits_keep_polarity (e := ⟨default, ⟨some .or⟩⟩) hp hv h
  have hrow : emptyComparison.Alternating .and := trivial
  have hrowValid : emptyComparison.validate = [] := rfl
  obtain ⟨-, -, -, -, haddition⟩ := edits_keep_polarity (e := ⟨default, ⟨some .or⟩⟩) hp hrowValid hrow
  have hleft : ¬ alternatingRows.MergesGroups [.left] := by
    rintro ⟨A, _, _, _, _, -, hA, -, -, -, hparent⟩
    have hroot : alternatingRows.nonGroupAbove? [.left] = some [] := rfl
    cases hroot.symm.trans hA
    cases hparent
  have hright : alternatingRows.MergesGroups [.right, .child, .right] :=
    ⟨[.right, .child], .right, [], .left, group .and emptyComparison, rfl, rfl, rfl, rfl, rfl, rfl⟩
  refine ⟨hp, hv, h, rfl, ?_, hleft, rfl, ?_, hright, rfl, ?_, ?_, hchoice .or, hrowValid, hrow, rfl,
    haddition rfl .addGroup (.inr rfl)⟩
  · exact hkeeps [.right, .child, .left] .addGroup _ (.inl (by decide)) rfl _ rfl
  · exact hkeeps [.left] .delete _ hleft rfl _ rfl
  · exact hmerges [.right, .child, .right] _ hright rfl
  · refine hrun _ ⟨fun _ _ => .inl (by decide), ?_, trivial⟩
    rintro root ⟨⟩
    exact .inr rfl

end ConditionTree
