import ConditionTree.Proofs.PathText
import ConditionTree.Proofs.Walk

/-!
# Reports

A report has one notice for each place that breaks a rule and none for any other (`nestedGroup_mem_notices_iff`,
`nonOperand_mem_notices_iff`), in the order of the nodes that break the rules (`pairwise_validate`). A notice names its
place by the text of the path, and the text leads back to the place, so that two notices never say the same
(`nodup_notices`). A tree with an empty report is one that the rules build (`validate_eq_nil_iff_wellFormed`).
-/

namespace ConditionTree

open Condition

/-- What is told of a violation: the place by its text and, for the side of a comparison, the name of its kind. -/
inductive Notice
  | nestedGroup (place : String)
  | nonOperand (place kind : String)
deriving DecidableEq, Repr

/-- The text that names the place. -/
def Notice.place : Notice → String
  | nestedGroup place => place
  | nonOperand place _ => place

theorem Path.text_injective {p q : Path} (h : p.text = q.text) : p = q := by
  have hread : (Except.ok p : Except PathError Path) = .ok q := by
    rw [← ofText_text p, h, ofText_text]
  cases hread
  rfl

theorem NodeKind.name_injective {k k' : NodeKind} (h : k.name = k'.name) : k = k' := by
  cases k <;> cases k' <;> first | rfl | exact absurd h (by decide)

namespace Violation

/-- The place that the violation is reported for. -/
def place : Violation → Path
  | nestedGroup path => path
  | nonOperand path _ => path

/-- The place of the node that breaks the rule, which is the comparison around a side. -/
def owner : Violation → Path
  | nestedGroup path => path
  | nonOperand path _ => path.dropLast

/-- In the order of the nodes that break the rules, and on the left of one comparison before its right. -/
def Before (v w : Violation) : Prop :=
  v.owner.Precedes w.owner ∨ (v.owner = w.owner ∧ v.place.isBefore w.place)

def notice : Violation → Notice
  | nestedGroup path => .nestedGroup path.text
  | nonOperand path kind => .nonOperand path.text kind.name

variable {v w : Violation}

theorem not_before_self (v : Violation) : ¬ v.Before v := by
  rintro (h | ⟨-, h⟩)
  · exact Path.not_precedes_self _ h
  · simp at h

theorem notice_injective (h : v.notice = w.notice) : v = w := by
  cases v with
  | nestedGroup p =>
    cases w with
    | nestedGroup q => rw [Path.text_injective (Notice.nestedGroup.inj h)]
    | nonOperand => cases h
  | nonOperand p k =>
    cases w with
    | nestedGroup => cases h
    | nonOperand q k' =>
      obtain ⟨htext, hname⟩ := Notice.nonOperand.inj h
      rw [Path.text_injective htext, NodeKind.name_injective hname]

/-- A notice is all that a report in JSON says of a violation. -/
theorem toJson_eq_iff : v.toJson = w.toJson ↔ v.notice = w.notice := by
  cases v <;> cases w <;> simp [toJson, notice, and_comm]

theorem ofText_place (v : Violation) : Path.ofText v.notice.place = .ok v.place := by
  cases v <;> exact Path.ofText_text _

end Violation

namespace Condition

/-- The trees that break no rule. -/
inductive WellFormed : Condition → Prop
  | number (x : Double) : WellFormed (number x)
  | reference (s : Option String) : WellFormed (reference s)
  | comparison (o : Comparator) {l r : Condition} (hl : l.isOperand) (hr : r.isOperand) :
    WellFormed (comparison o l r)
  | boolean (o : Connective) {l r : Condition} (hl : WellFormed l) (hr : WellFormed r) :
    WellFormed (boolean o l r)
  | group (o : Connective) {child : Condition} (hg : child.isGroup = false) (h : WellFormed child) :
    WellFormed (group o child)

/-- All that is told of a tree. -/
def notices (c : Condition) : List Notice :=
  c.validate.map Violation.notice

variable {c n side : Condition} {p q : Path} {kind : NodeKind} {v : Violation}

theorem isOperand_eq_false_iff : c.isOperand = false ↔ c.kind ≠ .number ∧ c.kind ≠ .reference := by
  cases c <;> simp [Condition.kind]

/-! ### Which places are reported -/

theorem mem_sideViolations_iff :
    v ∈ sideViolations p side ↔ side.isOperand = false ∧ v = .nonOperand p side.kind := by
  unfold sideViolations
  cases side.isOperand <;> simp

theorem mem_violationsAt_iff : v ∈ violationsAt p n ↔
    (v = .nestedGroup p ∧ ∃ o o' x, n = group o (group o' x)) ∨
    ∃ o l r b side, n = comparison o l r ∧ n.branch? b = some side ∧ side.isOperand = false ∧
      v = .nonOperand (p ++ [b]) side.kind := by
  cases n with
  | number | reference | boolean => simp [violationsAt]
  | comparison o l r =>
    rw [violationsAt, List.mem_append, mem_sideViolations_iff, mem_sideViolations_iff]
    constructor
    · rintro (⟨hl, hv⟩ | ⟨hr, hv⟩)
      · exact .inr ⟨o, l, r, .left, l, rfl, rfl, hl, hv⟩
      · exact .inr ⟨o, l, r, .right, r, rfl, rfl, hr, hv⟩
    · rintro (⟨-, o, o', x, hn⟩ | ⟨o, l, r, b, side, -, hb, hside, hv⟩)
      · cases hn
      · cases branch?_eq_some_iff.mp hb with
        | comparisonLeft => exact .inl ⟨hside, hv⟩
        | comparisonRight => exact .inr ⟨hside, hv⟩
  | group o child => cases child <;> simp [violationsAt, isGroup]

/-- A violation is one of a node that a path finds. -/
theorem mem_validate_iff : v ∈ c.validate ↔ ∃ p n, c.get? p = some n ∧ v ∈ violationsAt p n := by
  simp only [validate, List.mem_flatMap, Prod.exists, mem_walk_iff]

theorem nestedGroup_mem_validate_iff :
    .nestedGroup p ∈ c.validate ↔ ∃ o o' x, c.get? p = some (group o (group o' x)) := by
  rw [mem_validate_iff]
  constructor
  · rintro ⟨q, n, hn, hv⟩
    rcases mem_violationsAt_iff.mp hv with ⟨hplace, o, o', x, rfl⟩ | ⟨_, _, _, _, _, -, -, -, hside⟩
    · cases hplace
      exact ⟨o, o', x, hn⟩
    · cases hside
  · rintro ⟨o, o', x, hn⟩
    exact ⟨p, _, hn, mem_violationsAt_iff.mpr (.inl ⟨rfl, o, o', x, rfl⟩)⟩

theorem nonOperand_mem_validate_iff : .nonOperand q kind ∈ c.validate ↔
    ∃ p b o l r side, q = p ++ [b] ∧ c.get? p = some (comparison o l r) ∧ c.get? q = some side ∧
      side.kind = kind ∧ side.isOperand = false := by
  rw [mem_validate_iff]
  constructor
  · rintro ⟨p, n, hn, hv⟩
    rcases mem_violationsAt_iff.mp hv with ⟨hgroup, -⟩ | ⟨o, l, r, b, side, rfl, hb, hoperand, hside⟩
    · cases hgroup
    · cases hside
      exact ⟨p, b, o, l, r, side, rfl, hn, get?_concat_eq_some_iff.mpr ⟨_, hn, hb⟩, rfl, hoperand⟩
  · rintro ⟨p, b, o, l, r, side, rfl, hn, hq, rfl, hoperand⟩
    obtain ⟨a, ha, hb⟩ := get?_concat_eq_some_iff.mp hq
    cases hn.symm.trans ha
    exact ⟨p, _, hn, mem_violationsAt_iff.mpr (.inr ⟨o, l, r, b, side, rfl, hb, hoperand, rfl⟩)⟩

theorem nestedGroup_mem_notices_iff {place : String} : .nestedGroup place ∈ c.notices ↔
    ∃ p o o' x, place = Path.text p ∧ c.get? p = some (group o (group o' x)) := by
  rw [notices, List.mem_map]
  constructor
  · rintro ⟨v, hv, hnotice⟩
    cases v with
    | nestedGroup p =>
      cases hnotice
      obtain ⟨o, o', x, hp⟩ := nestedGroup_mem_validate_iff.mp hv
      exact ⟨p, o, o', x, rfl, hp⟩
    | nonOperand => cases hnotice
  · rintro ⟨p, o, o', x, rfl, hp⟩
    exact ⟨.nestedGroup p, nestedGroup_mem_validate_iff.mpr ⟨o, o', x, hp⟩, rfl⟩

theorem nonOperand_mem_notices_iff {place kindName : String} : .nonOperand place kindName ∈ c.notices ↔
    ∃ p b o l r n, place = Path.text (p ++ [b]) ∧ c.get? p = some (comparison o l r) ∧
      c.get? (p ++ [b]) = some n ∧ kindName = n.kind.name ∧ n.kind ≠ .number ∧ n.kind ≠ .reference := by
  rw [notices, List.mem_map]
  constructor
  · rintro ⟨v, hv, hnotice⟩
    cases v with
    | nestedGroup => cases hnotice
    | nonOperand q kind =>
      cases hnotice
      obtain ⟨p, b, o, l, r, n, rfl, hp, hn, rfl, hoperand⟩ := nonOperand_mem_validate_iff.mp hv
      exact ⟨p, b, o, l, r, n, rfl, hp, hn, rfl, isOperand_eq_false_iff.mp hoperand⟩
  · rintro ⟨p, b, o, l, r, n, rfl, hp, hn, rfl, hoperand⟩
    exact ⟨.nonOperand (p ++ [b]) n.kind, nonOperand_mem_validate_iff.mpr
      ⟨p, b, o, l, r, n, rfl, hp, hn, rfl, isOperand_eq_false_iff.mpr hoperand⟩, rfl⟩

/-! ### The order of a report -/

theorem owner_of_mem_violationsAt (h : v ∈ violationsAt p n) : v.owner = p := by
  rcases mem_violationsAt_iff.mp h with ⟨rfl, -⟩ | ⟨_, _, _, b, side, -, -, -, rfl⟩
  · rfl
  · exact List.dropLast_concat

theorem pairwise_violationsAt (p : Path) (n : Condition) : (violationsAt p n).Pairwise Violation.Before := by
  cases n with
  | number | reference | boolean => exact .nil
  | comparison o l r =>
    refine List.pairwise_append.mpr ⟨?_, ?_, fun v hv w hw => ?_⟩
    · unfold sideViolations
      split_ifs <;> simp
    · unfold sideViolations
      split_ifs <;> simp
    · obtain ⟨-, rfl⟩ := mem_sideViolations_iff.mp hv
      obtain ⟨-, rfl⟩ := mem_sideViolations_iff.mp hw
      exact .inr ⟨by simp [Violation.owner], by simp [Violation.place]⟩
  | group o child =>
    simp only [violationsAt]
    split_ifs <;> simp

/-- **A report follows the order of the nodes.** -/
theorem pairwise_validate (c : Condition) : c.validate.Pairwise Violation.Before := by
  refine List.pairwise_flatMap.mpr ⟨fun x _ => pairwise_violationsAt x.1 x.2, ?_⟩
  refine (pairwise_walk c).imp fun hxy v hv w hw => .inl ?_
  rwa [owner_of_mem_violationsAt hv, owner_of_mem_violationsAt hw]

/-- No place is reported twice. -/
theorem nodup_notices (c : Condition) : c.notices.Nodup := by
  refine List.pairwise_map.mpr ((pairwise_validate c).imp fun {v w} hvw hsame => ?_)
  cases Violation.notice_injective hsame
  exact Violation.not_before_self v hvw

/-- Nor do two entries of a report in JSON say the same. -/
theorem nodup_map_toJson_validate (c : Condition) : (c.validate.map Violation.toJson).Nodup := by
  have hnotices : c.validate.Pairwise fun v w => v.notice ≠ w.notice := List.pairwise_map.mp (nodup_notices c)
  exact List.pairwise_map.mpr (hnotices.imp fun hne hsame => hne (Violation.toJson_eq_iff.mp hsame))

/-! ### Trees without a report -/

theorem sideViolations_eq_nil_iff : sideViolations p side = [] ↔ side.isOperand := by
  unfold sideViolations
  cases side.isOperand <;> simp

theorem validate_of_isOperand (h : c.isOperand) : c.validate = [] :=
  validate_eq_nil_iff.mpr fun _ => breaches_of_isOperand h

/-- **A tree has an empty report exactly if the rules build it.** -/
theorem validate_eq_nil_iff_wellFormed : c.validate = [] ↔ c.WellFormed := by
  constructor
  · intro h
    induction c with
    | number x => exact .number x
    | reference s => exact .reference s
    | comparison o l r =>
      simp only [validate_comparison, List.append_eq_nil_iff, sideViolations_eq_nil_iff] at h
      exact .comparison o h.1.1 h.1.2
    | boolean o l r ihl ihr =>
      simp only [validate_boolean, List.append_eq_nil_iff, List.map_eq_nil_iff] at h
      exact .boolean o (ihl h.1) (ihr h.2)
    | group o child ih =>
      simp only [validate_group, List.append_eq_nil_iff, List.map_eq_nil_iff] at h
      exact .group o (by simpa using h.1) (ih h.2)
  · intro h
    induction h with
    | number | reference => rfl
    | comparison o hl hr =>
      rw [validate_comparison, sideViolations_eq_nil_iff.mpr hl, sideViolations_eq_nil_iff.mpr hr,
        validate_of_isOperand hl, validate_of_isOperand hr]
      rfl
    | boolean o _ _ ihl ihr =>
      rw [validate_boolean, ihl, ihr]
      rfl
    | group o hg _ ih =>
      rw [validate_group, ih, hg]
      rfl

end Condition

/-- **A report tells of every place that breaks a rule, of no other, and of each once.** A nested group is told of
exactly where a path finds a group that holds a group, and a side of a comparison exactly where one is no operand, by
its kind. No two notices are the same, and no two entries of the report in JSON. They come in the order of the nodes that
break the rules, the left side of a comparison before the right, and each text of a place is read back as that place.
Nothing is told of a tree exactly if the rules build it. -/
theorem report_is_exact (c : Condition) :
    (∀ place, .nestedGroup place ∈ c.notices ↔
      ∃ p o o' x, place = Path.text p ∧ c.get? p = some (group o (group o' x))) ∧
    (∀ place kind, .nonOperand place kind ∈ c.notices ↔
      ∃ p b o l r n, place = Path.text (p ++ [b]) ∧ c.get? p = some (comparison o l r) ∧
        c.get? (p ++ [b]) = some n ∧ kind = n.kind.name ∧ n.kind ≠ .number ∧ n.kind ≠ .reference) ∧
    c.notices.Nodup ∧
    (c.validate.map Violation.toJson).Nodup ∧
    c.validate.Pairwise Violation.Before ∧
    (∀ v ∈ c.validate, Path.ofText v.notice.place = .ok v.place) ∧
    (c.validate = [] ↔ c.WellFormed) := by
  refine ⟨fun place => nestedGroup_mem_notices_iff, fun place kind => nonOperand_mem_notices_iff, nodup_notices c,
    nodup_map_toJson_validate c, pairwise_validate c, fun v _ => v.ofText_place, validate_eq_nil_iff_wellFormed⟩

/-- A comparison between brackets in brackets and two rows. -/
def Condition.bracketsCompared : Condition :=
  comparison .less (group .or (group .and (number .zero))) (boolean .and emptyComparison emptyComparison)

/-- One place can break both rules. The comparison is told of before the group in it. -/
theorem one_place_breaks_both_rules :
    bracketsCompared.validate =
      [.nonOperand [.left] .group, .nonOperand [.right] .boolean, .nestedGroup [.left]] ∧
    Notice.nestedGroup "$.left" ∈ bracketsCompared.notices ∧
    Notice.nonOperand "$.left" "group" ∈ bracketsCompared.notices ∧
    bracketsCompared.notices.Nodup ∧
    Path.ofText "$.right" = .ok [.right] ∧
    ¬ bracketsCompared.WellFormed := by
  obtain ⟨hgroups, hsides, hnodup, -, -, htexts, hwellFormed⟩ := report_is_exact bracketsCompared
  refine ⟨rfl, ?_, ?_, hnodup, ?_, ?_⟩
  · exact (hgroups "$.left").mpr ⟨[.left], .or, .and, number .zero, rfl, rfl⟩
  · exact (hsides "$.left" "group").mpr
      ⟨[], .left, .less, _, _, group .or (group .and (number .zero)), rfl, rfl, rfl, rfl, by decide, by decide⟩
  · exact htexts (.nonOperand [.right] .boolean) (List.mem_of_elem_eq_true rfl)
  · exact fun h => List.cons_ne_nil _ _ (hwellFormed.mpr h)

end ConditionTree
