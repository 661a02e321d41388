import ConditionTree.Condition.Wire
import Mathlib.Tactic.Common

/-!
# The grammar of the JSON form

Which values are conditions (`Json.IsCondition`), said without the decoder: what the object of each kind of node has to
hold under its keys. A value has fields as a node has branches, and a path leads through them from value to value.

Everything else has a first fault: some value on the way is wrong in itself (`Json.Fault`), while the headers of all
values above it are right and so is everything that stands to the left of the way (`Json.FirstFault`).
-/

namespace ConditionTree

namespace Tag

/-- How the kind of a node is written. -/
def text : Tag → String
  | number => "number"
  | reference => "number-ref"
  | group => "group"
  | boolean o => o.symbol
  | comparison o => o.symbol

/-- The branches of a node of this kind. -/
def branches : Tag → List Branch
  | number | reference => []
  | group => [.child]
  | boolean _ | comparison _ => [.left, .right]

/-- All that may be written under `expr`. -/
def texts : List String :=
  ["number", "number-ref", "group", "&&", "||", "<", "<=", ">", ">=", "=="]

@[simp] theorem ofText?_text (t : Tag) : ofText? t.text = some t := by
  cases t with
  | number | reference | group => rfl
  | boolean o | comparison o => cases o <;> rfl

theorem ofText?_eq_some_iff {s : String} {t : Tag} : ofText? s = some t ↔ s = t.text := by
  constructor
  · intro h
    unfold ofText? at h
    split at h
    · cases h; rfl
    · cases h; rfl
    · cases h; rfl
    · rcases Option.or_eq_some_iff.mp h with h | ⟨-, h⟩
      · obtain ⟨o, ho, rfl⟩ := Option.map_eq_some_iff.mp h
        exact (Connective.symbol_of_ofSymbol? ho).symm
      · obtain ⟨o, ho, rfl⟩ := Option.map_eq_some_iff.mp h
        exact (Comparator.symbol_of_ofSymbol? ho).symm
  · rintro rfl
    exact ofText?_text t

theorem text_mem_texts (t : Tag) : t.text ∈ texts := by
  cases t with
  | number | reference | group => decide
  | boolean o | comparison o => cases o <;> decide

theorem exists_text_of_mem : ∀ s ∈ texts, ∃ t : Tag, s = t.text := by
  intro s hs
  have hread : ∀ s ∈ texts, (ofText? s).isSome := by decide
  obtain ⟨t, ht⟩ := Option.isSome_iff_exists.mp (hread s hs)
  exact ⟨t, ofText?_eq_some_iff.mp ht⟩

end Tag

namespace Json

/-! ### Conditions among the values -/

/-- A number that some finite double is nearest to. -/
def IsFiniteNumber (v : Json) : Prop :=
  ∃ x : Double, v.asDouble? = some x ∧ x.isFinite

/-- A string, or null for none. -/
def IsSeries (v : Json) : Prop :=
  v = .null ∨ ∃ s, v = .string s

/-- The values that are conditions. Members of other keys may hold anything. -/
inductive IsCondition : Json → Prop
  | number {members : List (String × Json)} (tag : members.lookup "expr" = some (.string "number"))
    (value : ∀ v ∈ members.lookup "value", v.IsFiniteNumber) : IsCondition (.object members)
  | reference {members : List (String × Json)} (tag : members.lookup "expr" = some (.string "number-ref"))
    (series : ∀ v ∈ members.lookup "ref", v.IsSeries) : IsCondition (.object members)
  | comparison {members : List (String × Json)} {l r : Json} (o : Comparator)
    (tag : members.lookup "expr" = some (.string o.symbol)) (left : members.lookup "left" = some l)
    (right : members.lookup "right" = some r) (hl : IsCondition l) (hr : IsCondition r) :
    IsCondition (.object members)
  | boolean {members : List (String × Json)} {l r : Json} (o : Connective)
    (tag : members.lookup "expr" = some (.string o.symbol)) (left : members.lookup "left" = some l)
    (right : members.lookup "right" = some r) (hl : IsCondition l) (hr : IsCondition r) :
    IsCondition (.object members)
  | group {members : List (String × Json)} {c : Json} (o : Connective)
    (tag : members.lookup "expr" = some (.string "group"))
    (operator : members.lookup "operator" = some (.string o.symbol))
    (child : members.lookup "child" = some c) (hc : IsCondition c) : IsCondition (.object members)

/-- What members say of the node right at the start: its kind, and of brackets their connective as well. -/
structure Header (members : List (String × Json)) (t : Tag) : Prop where
  tag : members.lookup "expr" = some (.string t.text)
  operator : t = .group → ∃ o : Connective, members.lookup "operator" = some (.string o.symbol)

/-- The value of a branch: a field of an object whose header is right, unless null stands there. -/
inductive Field : Json → Branch → Json → Prop
  | intro {members : List (String × Json)} {t : Tag} {b : Branch} {v : Json} (header : Header members t)
    (mem : b ∈ t.branches) (value : members.lookup b.name = some v) (notNull : v.isNull = false) :
    Field (.object members) b v

/-- The path leads through fields from one value to another. -/
inductive Leads : Json → Path → Json → Prop
  | nil (v : Json) : Leads v [] v
  | cons {v u w : Json} {b : Branch} {path : Path} (field : Field v b u) (rest : Leads u path w) :
    Leads v (b :: path) w

/-- What is wrong with a value in itself. Of its branches only those are looked at that are not there. -/
inductive Fault : Json → DecodeError → Prop
  | notAnObject {v : Json} {p : Path} (h : ∀ members, v ≠ .object members) : Fault v (.notAnObject p)
  | untagged {members : List (String × Json)} {p : Path} (h : members.lookup "expr" = none) :
    Fault (.object members) (.missingField "expr" p)
  | tagNotAString {members : List (String × Json)} {v : Json} {p : Path} (h : members.lookup "expr" = some v)
    (hv : ∀ s, v ≠ .string s) : Fault (.object members) (.tagNotAString p)
  | unknownTag {members : List (String × Json)} {s : String} {p : Path}
    (h : members.lookup "expr" = some (.string s)) (hs : s ∉ Tag.texts) :
    Fault (.object members) (.unknownTag s p)
  | value {members : List (String × Json)} {v : Json} {p : Path}
    (tag : members.lookup "expr" = some (.string "number")) (h : members.lookup "value" = some v)
    (hv : ¬ v.IsFiniteNumber) : Fault (.object members) (.valueNotFinite v p)
  | series {members : List (String × Json)} {v : Json} {p : Path}
    (tag : members.lookup "expr" = some (.string "number-ref")) (h : members.lookup "ref" = some v)
    (hv : ¬ v.IsSeries) : Fault (.object members) (.referenceNotAString v p)
  | noOperator {members : List (String × Json)} {p : Path}
    (tag : members.lookup "expr" = some (.string "group")) (h : members.lookup "operator" = none) :
    Fault (.object members) (.missingField "operator" p)
  | unknownOperator {members : List (String × Json)} {v : Json} {p : Path}
    (tag : members.lookup "expr" = some (.string "group")) (h : members.lookup "operator" = some v)
    (hv : ∀ o : Connective, v ≠ .string o.symbol) : Fault (.object members) (.unknownOperator v p)
  /-- A branch is missing, also if null stands for it; the one on the right is missed once the left one is read. -/
  | noBranch {members : List (String × Json)} {t : Tag} {b : Branch} {p : Path}
    (header : Header members t) (mem : b ∈ t.branches) (h : ∀ v ∈ members.lookup b.name, v.isNull)
    (left : b = .right → ∃ l, Field (.object members) .left l ∧ l.IsCondition) :
    Fault (.object members) (.missingField b.name p)

/-- The first fault of a value: one at the end of a path, where everything to the left of the path is right. -/
def FirstFault (v : Json) (path : Path) (e : DecodeError) : Prop :=
  ∃ w, Leads v path w ∧ Fault w e ∧
    ∀ q, q ++ [.right] <+: path → ∃ l, Leads v (q ++ [.left]) l ∧ l.IsCondition

variable {members : List (String × Json)} {v u w : Json} {b : Branch} {path : Path} {t : Tag} {e : DecodeError}

/-! ### Ways through a value -/

theorem Header.of_ne_group (tag : members.lookup "expr" = some (.string t.text)) (h : t ≠ .group) : Header members t :=
  ⟨tag, fun hgroup => absurd hgroup h⟩

theorem Header.unique {t' : Tag} (h : Header members t) (h' : Header members t') : t = t' := by
  have htext : t.text = t'.text := by
    have htag := h.tag.symm.trans h'.tag
    simpa using htag
  have hread := congrArg Tag.ofText? htext
  simpa using hread

theorem Field.unique (h : Field v b u) (h' : Field v b w) : u = w := by
  rcases h with ⟨-, -, hu, -⟩
  rcases h' with ⟨-, -, hw, -⟩
  exact Option.some.inj (hu.symm.trans hw)

theorem leads_nil_iff : Leads v [] w ↔ v = w := by
  constructor
  · rintro ⟨⟩
    rfl
  · rintro rfl
    exact .nil v

theorem leads_cons_iff (h : Field v b u) : Leads v (b :: path) w ↔ Leads u path w := by
  constructor
  · intro hw
    rcases hw with _ | ⟨hfield, hrest⟩
    rwa [h.unique hfield]
  · exact .cons h

theorem leads_singleton_iff : Leads v [b] w ↔ Field v b w := by
  constructor
  · intro h
    rcases h with _ | ⟨hfield, hrest⟩
    rwa [← leads_nil_iff.mp hrest]
  · exact fun h => .cons h (.nil w)

/-- On the way every value but the last is an object with a right header. -/
theorem Leads.header (h : Leads v path w) : ∀ {q : Path} {b : Branch}, q ++ [b] <+: path →
    ∃ members t, Leads v q (.object members) ∧ Header members t ∧ b ∈ t.branches := by
  induction h with
  | nil v => simp
  | @cons v u w b path hu hw ih =>
    intro q b' hq
    cases q with
    | nil =>
      obtain ⟨rfl, -⟩ := List.cons_prefix_cons.mp hq
      rcases hu with ⟨header, hmem, -, -⟩
      exact ⟨_, _, .nil _, header, hmem⟩
    | cons b'' q =>
      obtain ⟨rfl, hrest⟩ := List.cons_prefix_cons.mp hq
      obtain ⟨members, t, hq, header, hmem⟩ := ih hrest
      exact ⟨members, t, .cons hu hq, header, hmem⟩

/-- One field down, a first fault stays one; on the right the left side has to be right. -/
theorem firstFault_cons_iff (h : Field v b u) : FirstFault v (b :: path) e ↔
    (b = .right → ∃ l, Field v .left l ∧ l.IsCondition) ∧ FirstFault u path e := by
  constructor
  · rintro ⟨w, hw, hfault, hleft⟩
    refine ⟨?_, w, (leads_cons_iff h).mp hw, hfault, fun q hq => ?_⟩
    · rintro rfl
      obtain ⟨l, hl, hcondition⟩ := hleft [] (List.prefix_append _ _)
      exact ⟨l, leads_singleton_iff.mp hl, hcondition⟩
    · obtain ⟨l, hl, hcondition⟩ := hleft (b :: q) ((List.prefix_cons_inj b).mpr hq)
      exact ⟨l, (leads_cons_iff h).mp hl, hcondition⟩
  · rintro ⟨hhere, w, hw, hfault, hleft⟩
    refine ⟨w, (leads_cons_iff h).mpr hw, hfault, fun q hq => ?_⟩
    cases q with
    | nil =>
      obtain ⟨rfl, -⟩ := List.cons_prefix_cons.mp hq
      obtain ⟨l, hl, hcondition⟩ := hhere rfl
      exact ⟨l, leads_singleton_iff.mpr hl, hcondition⟩
    | cons b' q =>
      obtain ⟨rfl, hrest⟩ := List.cons_prefix_cons.mp hq
      obtain ⟨l, hl, hcondition⟩ := hleft q hrest
      exact ⟨l, (leads_cons_iff h).mpr hl, hcondition⟩

theorem firstFault_nil_iff : FirstFault v [] e ↔ Fault v e := by
  constructor
  · rintro ⟨w, hw, hfault, -⟩
    rwa [leads_nil_iff.mp hw]
  · intro h
    exact ⟨v, .nil v, h, fun q hq => by simp at hq⟩

/-- What stands under a key is smaller than the object, so that proofs may go down along members. -/
theorem sizeOf_lookup {key : String} : ∀ {members : List (String × Json)} {v : Json},
    members.lookup key = some v → sizeOf v < sizeOf members
  | [], _, h => by simp at h
  | (k, u) :: rest, v, h => by
    rw [List.lookup_cons] at h
    cases hk : key == k with
    | true =>
      simp only [hk, Option.some.injEq] at h
      subst h
      simp only [List.cons.sizeOf_spec, Prod.mk.sizeOf_spec]
      omega
    | false =>
      simp only [hk] at h
      have hrest := sizeOf_lookup h
      simp only [List.cons.sizeOf_spec]
      omega

theorem Field.sizeOf_lt (h : Field v b u) : sizeOf u < sizeOf v := by
  rcases h with ⟨-, -, hu, -⟩
  have hlt := sizeOf_lookup hu
  simp only [object.sizeOf_spec]
  omega

/-- Induction from the fields of a value to the value itself. -/
theorem field_induction {P : Json → Prop} (h : ∀ v, (∀ b u, Field v b u → P u) → P v) (v : Json) : P v :=
  h v fun _ u _hu => field_induction h u
termination_by sizeOf v
decreasing_by exact _hu.sizeOf_lt

theorem IsCondition.isNull_eq_false (h : v.IsCondition) : v.isNull = false := by
  cases h <;> rfl

end Json

end ConditionTree
