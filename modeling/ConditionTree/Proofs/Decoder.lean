import ConditionTree.Proofs.Grammar
import ConditionTree.Proofs.Wire

/-!
# What the decoder accepts

The decoder reads exactly the values that are conditions (`exists_ofJson_iff`), whatever else they hold. The fields of
such a value are the branches of its node, so a path leads to a value wherever the tree has a node, and the node is what
that value is read as by itself (`get?_of_leads`).
-/

namespace ConditionTree

namespace Condition

open Json

variable {members : List (String × Json)} {v : Json} {b : Branch} {path : Path} {t : Tag} {e : DecodeError}

/-! ### The steps of the decoder -/

theorem tagOf_eq_ok_iff : tagOf members path = .ok t ↔ members.lookup "expr" = some (.string t.text) := by
  constructor
  · intro h
    unfold tagOf at h
    split at h
    · cases h
    · rename_i s hs
      split at h
      · rename_i t' ht
        cases h
        rw [hs, Tag.ofText?_eq_some_iff.mp ht]
      · cases h
    · cases h
  · intro h
    simp [tagOf, h]

theorem fault_of_tagOf (h : tagOf members path = .error e) : e.path = path ∧ Fault (.object members) e := by
  unfold tagOf at h
  split at h
  · rename_i hnone
    cases h
    exact ⟨rfl, .untagged hnone⟩
  · rename_i s hs
    split at h
    · cases h
    · rename_i hread
      cases h
      refine ⟨rfl, .unknownTag hs fun hmem => ?_⟩
      obtain ⟨t, rfl⟩ := Tag.exists_text_of_mem s hmem
      rw [Tag.ofText?_text] at hread
      cases hread
  · rename_i v hnot hv
    cases h
    refine ⟨rfl, .tagNotAString hv ?_⟩
    rintro s rfl
    exact hnot s rfl

/-- Decodes both sides of a node and joins them. -/
def decodeSides (join : Condition → Condition → Condition) (members : List (String × Json)) (path : Path) :
    Except DecodeError Condition := do
  let l ← decodeBranch path .left members
  let r ← decodeBranch path .right members
  return join l r

/-- Decodes the members of a node once it is known of which kind it is. -/
def decodeAs (members : List (String × Json)) (path : Path) : Tag → Except DecodeError Condition
  | .number => numberOf members path
  | .reference => referenceOf members path
  | .group => do
    let o ← groupOperatorOf members path
    let child ← decodeBranch path .child members
    return group o child
  | .boolean o => decodeSides (boolean o) members path
  | .comparison o => decodeSides (comparison o) members path

theorem decode_object (members : List (String × Json)) (path : Path) :
    decode path (.object members) = tagOf members path >>= decodeAs members path := by
  rw [decode]
  cases tagOf members path with
  | error e => rfl
  | ok t => cases t <;> rfl

theorem decodeBranch_of_missing : ∀ {members : List (String × Json)},
    (∀ v ∈ members.lookup b.name, v.isNull) →
      decodeBranch path b members = .error (.missingField b.name path)
  | [], _ => by rw [decodeBranch]
  | (k, v) :: rest, h => by
    rw [decodeBranch]
    by_cases hk : k = b.name
    · subst hk
      have hnull : v.isNull := h v (by simp)
      rw [if_pos rfl, if_pos hnull]
    · have hne : (b.name == k) = false := by simpa using fun h => hk h.symm
      rw [if_neg hk]
      refine decodeBranch_of_missing fun u hu => h u ?_
      rwa [List.lookup_cons, hne]

theorem decodeBranch_of_lookup : ∀ {members : List (String × Json)}, members.lookup b.name = some v →
    v.isNull = false → decodeBranch path b members = decode (path ++ [b]) v
  | [], h, _ => by simp at h
  | (k, u) :: rest, h, hv => by
    rw [decodeBranch]
    rw [List.lookup_cons] at h
    by_cases hk : k = b.name
    · subst hk
      simp only [beq_self_eq_true, Option.some.injEq] at h
      subst h
      simp [hv]
    · have hne : (b.name == k) = false := by simpa using fun h => hk h.symm
      rw [hne] at h
      rw [if_neg hk]
      exact decodeBranch_of_lookup h hv

theorem groupOperatorOf_eq_ok_iff {o : Connective} :
    groupOperatorOf members path = .ok o ↔ members.lookup "operator" = some (.string o.symbol) := by
  constructor
  · intro h
    unfold groupOperatorOf at h
    split at h
    · cases h
    · rename_i v hv
      split at h
      · rename_i o' ho
        cases h
        obtain ⟨s, hs, ho⟩ := Option.bind_eq_some_iff.mp ho
        cases v <;> cases hs
        rw [hv, Connective.symbol_of_ofSymbol? ho]
      · cases h
  · intro h
    simp [groupOperatorOf, h, asString?]

theorem fault_of_groupOperatorOf (tag : members.lookup "expr" = some (.string "group"))
    (h : groupOperatorOf members path = .error e) : e.path = path ∧ Fault (.object members) e := by
  unfold groupOperatorOf at h
  split at h
  · rename_i hnone
    cases h
    exact ⟨rfl, .noOperator tag hnone⟩
  · rename_i v hv
    split at h
    · cases h
    · rename_i hread
      cases h
      refine ⟨rfl, .unknownOperator tag hv ?_⟩
      rintro o rfl
      simp [asString?] at hread

theorem exists_numberOf (h : ∀ v ∈ members.lookup "value", v.IsFiniteNumber) (path : Path) :
    ∃ c, numberOf members path = .ok c := by
  unfold numberOf
  cases hv : members.lookup "value" with
  | none => exact ⟨_, rfl⟩
  | some v =>
    obtain ⟨x, hread, hfinite⟩ := h v hv
    exact ⟨number x, by simp [hread, Option.filter, hfinite]⟩

theorem exists_referenceOf (h : ∀ v ∈ members.lookup "ref", v.IsSeries) (path : Path) :
    ∃ c, referenceOf members path = .ok c := by
  unfold referenceOf
  cases hv : members.lookup "ref" with
  | none => exact ⟨_, rfl⟩
  | some v =>
    rcases h v hv with rfl | ⟨s, rfl⟩
    · exact ⟨_, rfl⟩
    · exact ⟨_, rfl⟩

/-- What a threshold is read as does not depend on where it stands. -/
theorem numberOf_eq_ok {c : Condition} (h : numberOf members path = .ok c) :
    (∃ x, c = number x) ∧ (∀ v ∈ members.lookup "value", v.IsFiniteNumber) ∧
      ∀ q, numberOf members q = .ok c := by
  unfold numberOf at h ⊢
  cases hv : members.lookup "value" with
  | none =>
    rw [hv] at h
    cases h
    exact ⟨⟨_, rfl⟩, by simp, fun _ => rfl⟩
  | some v =>
    rw [hv] at h
    dsimp only at h ⊢
    cases hx : v.asDouble?.filter Double.isFinite with
    | none =>
      rw [hx] at h
      cases h
    | some x =>
      rw [hx] at h
      cases h
      refine ⟨⟨x, rfl⟩, ?_, fun _ => rfl⟩
      rintro v' ⟨⟩
      exact ⟨x, Option.filter_eq_some_iff.mp hx⟩

theorem referenceOf_eq_ok {c : Condition} (h : referenceOf members path = .ok c) :
    (∃ s, c = reference s) ∧ (∀ v ∈ members.lookup "ref", v.IsSeries) ∧
      ∀ q, referenceOf members q = .ok c := by
  unfold referenceOf at h ⊢
  cases hv : members.lookup "ref" with
  | none =>
    rw [hv] at h
    cases h
    exact ⟨⟨_, rfl⟩, by simp, fun _ => rfl⟩
  | some v =>
    rw [hv] at h
    cases v <;> cases h
    · exact ⟨⟨_, rfl⟩, fun v hv => .inl (Option.some.inj hv).symm, fun _ => rfl⟩
    · exact ⟨⟨_, rfl⟩, fun v hv => .inr ⟨_, (Option.some.inj hv).symm⟩, fun _ => rfl⟩

theorem fault_of_numberOf (tag : members.lookup "expr" = some (.string "number"))
    (h : numberOf members path = .error e) : e.path = path ∧ Fault (.object members) e := by
  unfold numberOf at h
  split at h
  · cases h
  · rename_i v hv
    split at h
    · cases h
    · rename_i hread
      cases h
      refine ⟨rfl, .value tag hv ?_⟩
      rintro ⟨x, hx, hfinite⟩
      rw [hx] at hread
      simp [Option.filter, hfinite] at hread

theorem fault_of_referenceOf (tag : members.lookup "expr" = some (.string "number-ref"))
    (h : referenceOf members path = .error e) : e.path = path ∧ Fault (.object members) e := by
  unfold referenceOf at h
  split at h
  · cases h
  · cases h
  · cases h
  · rename_i v hnull hstring hv
    cases h
    refine ⟨rfl, .series tag hv ?_⟩
    rintro (rfl | ⟨s, rfl⟩)
    · exact hnull rfl
    · exact hstring s rfl

/-- Under a right header a branch is read from its field, or missed if there is none. -/
theorem decodeBranch_cases (header : Header members t) (hb : b ∈ t.branches) :
    (∃ u, Field (.object members) b u ∧ ∀ path, decodeBranch path b members = decode (path ++ [b]) u) ∨
      ((∀ v ∈ members.lookup b.name, v.isNull) ∧
        ∀ path, decodeBranch path b members = .error (.missingField b.name path)) := by
  by_cases hmissing : ∀ v ∈ members.lookup b.name, v.isNull
  · exact .inr ⟨hmissing, fun path => decodeBranch_of_missing hmissing⟩
  · push Not at hmissing
    obtain ⟨u, hu, hnull⟩ := hmissing
    have hnull : u.isNull = false := by simpa using hnull
    exact .inl ⟨u, .intro header hb hu hnull, fun path => decodeBranch_of_lookup hu hnull⟩

/-- What the branch of a node is read as. -/
theorem decodeBranch_eq_ok {c : Condition} (header : Header members t) (hb : b ∈ t.branches)
    (h : decodeBranch path b members = .ok c) :
    ∃ u, Field (.object members) b u ∧ decode (path ++ [b]) u = .ok c := by
  obtain ⟨u, hu, hread⟩ | ⟨-, hread⟩ := decodeBranch_cases header hb
  · exact ⟨u, hu, hread path ▸ h⟩
  · rw [hread] at h
    cases h

theorem decodeBranch_of_field {u : Json} (h : Field (.object members) b u) (path : Path) :
    decodeBranch path b members = decode (path ++ [b]) u := by
  rcases h with ⟨-, -, hu, hnull⟩
  exact decodeBranch_of_lookup hu hnull

theorem decodeSides_eq_ok {join : Condition → Condition → Condition} {c : Condition}
    (h : decodeSides join members path = .ok c) :
    ∃ l r, decodeBranch path .left members = .ok l ∧ decodeBranch path .right members = .ok r ∧ join l r = c := by
  obtain ⟨l, hl, h⟩ := bind_eq_ok.mp h
  obtain ⟨r, hr, h⟩ := bind_eq_ok.mp h
  cases h
  exact ⟨l, r, hl, hr, rfl⟩

/-! ### What is accepted -/

theorem isCondition_of_decode (v : Json) {c : Condition} : ∀ {path : Path}, decode path v = .ok c → v.IsCondition := by
  induction v using field_induction generalizing c with
  | h v ih =>
    intro path h
    cases v with
    | object members =>
      rw [decode_object] at h
      obtain ⟨t, ht, h⟩ := bind_eq_ok.mp h
      have htag := tagOf_eq_ok_iff.mp ht
      -- a branch that is read is a condition by induction, and so it is not null
      have hbranch : ∀ {b : Branch} {d : Condition}, Header members t → b ∈ t.branches →
          decodeBranch path b members = .ok d → ∃ u, members.lookup b.name = some u ∧ u.IsCondition := by
        intro b d header hb hd
        obtain ⟨u, hu, hread⟩ := decodeBranch_eq_ok header hb hd
        have hcondition := ih b u hu hread
        rcases hu with ⟨-, -, hu, -⟩
        exact ⟨u, hu, hcondition⟩
      cases t with
      | number => exact .number htag (numberOf_eq_ok h).2.1
      | reference => exact .reference htag (referenceOf_eq_ok h).2.1
      | group =>
        obtain ⟨o, ho, h⟩ := bind_eq_ok.mp h
        obtain ⟨child, hchild, -⟩ := bind_eq_ok.mp h
        have hop := groupOperatorOf_eq_ok_iff.mp ho
        obtain ⟨u, hu, hcondition⟩ := hbranch ⟨htag, fun _ => ⟨o, hop⟩⟩ (by decide) hchild
        exact .group o htag hop hu hcondition
      | boolean o =>
        obtain ⟨l, r, hl, hr, -⟩ := decodeSides_eq_ok h
        obtain ⟨u, hu, hleft⟩ := hbranch (.of_ne_group htag (by simp)) (by simp [Tag.branches]) hl
        obtain ⟨w, hw, hright⟩ := hbranch (.of_ne_group htag (by simp)) (by simp [Tag.branches]) hr
        exact .boolean o htag hu hw hleft hright
      | comparison o =>
        obtain ⟨l, r, hl, hr, -⟩ := decodeSides_eq_ok h
        obtain ⟨u, hu, hleft⟩ := hbranch (.of_ne_group htag (by simp)) (by simp [Tag.branches]) hl
        obtain ⟨w, hw, hright⟩ := hbranch (.of_ne_group htag (by simp)) (by simp [Tag.branches]) hr
        exact .comparison o htag hu hw hleft hright
    | _ => simp [decode] at h

theorem exists_decodeSides {join : Condition → Condition → Condition} {u w : Json}
    (left : members.lookup "left" = some u) (right : members.lookup "right" = some w)
    (hu : u.isNull = false) (hw : w.isNull = false) (hl : ∃ l, decode (path ++ [.left]) u = .ok l)
    (hr : ∃ r, decode (path ++ [.right]) w = .ok r) : ∃ c, decodeSides join members path = .ok c := by
  obtain ⟨l, hl⟩ := hl
  obtain ⟨r, hr⟩ := hr
  rw [← decodeBranch_of_lookup (b := .left) left hu] at hl
  rw [← decodeBranch_of_lookup (b := .right) right hw] at hr
  exact ⟨join l r, by rw [decodeSides, hl, hr]; rfl⟩

theorem exists_decode_of_isCondition (h : v.IsCondition) (path : Path) : ∃ c, decode path v = .ok c := by
  induction h generalizing path with
  | @number members tag value =>
    have ht : tagOf members path = .ok .number := tagOf_eq_ok_iff.mpr tag
    rw [decode_object, ht]
    exact exists_numberOf value path
  | @reference members tag series =>
    have ht : tagOf members path = .ok .reference := tagOf_eq_ok_iff.mpr tag
    rw [decode_object, ht]
    exact exists_referenceOf series path
  | @group members u o tag operator child hc ih =>
    have ht : tagOf members path = .ok .group := tagOf_eq_ok_iff.mpr tag
    obtain ⟨c, hchild⟩ := ih (path ++ [.child])
    rw [← decodeBranch_of_lookup (b := .child) child hc.isNull_eq_false] at hchild
    refine ⟨group o c, ?_⟩
    rw [decode_object, ht, ok_bind, decodeAs, groupOperatorOf_eq_ok_iff.mpr operator, ok_bind, hchild]
    rfl
  | @boolean members u w o tag left right hl hr ihl ihr =>
    have ht : tagOf members path = .ok (.boolean o) := tagOf_eq_ok_iff.mpr tag
    rw [decode_object, ht]
    exact exists_decodeSides left right hl.isNull_eq_false hr.isNull_eq_false (ihl _) (ihr _)
  | @comparison members u w o tag left right hl hr ihl ihr =>
    have ht : tagOf members path = .ok (.comparison o) := tagOf_eq_ok_iff.mpr tag
    rw [decode_object, ht]
    exact exists_decodeSides left right hl.isNull_eq_false hr.isNull_eq_false (ihl _) (ihr _)

theorem exists_ofJson_iff : (∃ c, ofJson v = .ok c) ↔ v.IsCondition :=
  ⟨fun ⟨_, h⟩ => isCondition_of_decode v h, fun h => exists_decode_of_isCondition h []⟩

/-! ### Where the nodes come from -/

/-- What a value is read as does not depend on where it stands. -/
theorem decode_anywhere (v : Json) {c : Condition} :
    ∀ {path : Path}, decode path v = .ok c → ∀ q, decode q v = .ok c := by
  induction v using field_induction generalizing c with
  | h v ih =>
    intro path h q
    cases v with
    | object members =>
      rw [decode_object] at h ⊢
      obtain ⟨t, ht, h⟩ := bind_eq_ok.mp h
      have htag := tagOf_eq_ok_iff.mp ht
      have hbranch : ∀ {b : Branch} {d : Condition}, Header members t → b ∈ t.branches →
          decodeBranch path b members = .ok d → decodeBranch q b members = .ok d := by
        intro b d header hb hd
        obtain ⟨u, hu, hread⟩ := decodeBranch_eq_ok header hb hd
        rw [decodeBranch_of_field hu]
        exact ih b u hu hread _
      have hsides : ∀ {join : Condition → Condition → Condition}, Header members t → t.branches = [.left, .right] →
          decodeSides join members path = .ok c → decodeSides join members q = .ok c := by
        intro join header hbs hd
        obtain ⟨l, r, hl, hr, hjoin⟩ := decodeSides_eq_ok hd
        have hl := hbranch header (by simp [hbs]) hl
        have hr := hbranch header (by simp [hbs]) hr
        rw [decodeSides, hl, hr, ← hjoin]
        rfl
      rw [tagOf_eq_ok_iff.mpr htag, ok_bind]
      cases t with
      | number => exact (numberOf_eq_ok h).2.2 q
      | reference => exact (referenceOf_eq_ok h).2.2 q
      | group =>
        obtain ⟨o, ho, h⟩ := bind_eq_ok.mp h
        obtain ⟨child, hchild, h⟩ := bind_eq_ok.mp h
        have hop := groupOperatorOf_eq_ok_iff.mp ho
        have hchild := hbranch ⟨htag, fun _ => ⟨o, hop⟩⟩ (by simp [Tag.branches]) hchild
        rw [decodeAs, groupOperatorOf_eq_ok_iff.mpr hop, ok_bind, hchild]
        exact h
      | boolean o => exact hsides (.of_ne_group htag (by simp)) rfl h
      | comparison o => exact hsides (.of_ne_group htag (by simp)) rfl h
    | _ => simp [decode] at h

/-- A value that is read has the header of its node, and each branch is read from the members. -/
theorem header_of_decode {c : Condition} (h : decode path v = .ok c) :
    ∃ members t, v = .object members ∧ Header members t ∧ c.branches = t.branches ∧
      ∀ b n, c.branch? b = some n → decodeBranch path b members = .ok n := by
  cases v with
  | object members =>
    rw [decode_object] at h
    obtain ⟨t, ht, h⟩ := bind_eq_ok.mp h
    have htag := tagOf_eq_ok_iff.mp ht
    cases t with
    | number =>
      obtain ⟨⟨x, rfl⟩, -, -⟩ := numberOf_eq_ok h
      exact ⟨members, .number, rfl, .of_ne_group htag (by simp), rfl, by rintro (_ | _ | _) n ⟨⟩⟩
    | reference =>
      obtain ⟨⟨s, rfl⟩, -, -⟩ := referenceOf_eq_ok h
      exact ⟨members, .reference, rfl, .of_ne_group htag (by simp), rfl, by rintro (_ | _ | _) n ⟨⟩⟩
    | group =>
      obtain ⟨o, ho, h⟩ := bind_eq_ok.mp h
      obtain ⟨child, hchild, h⟩ := bind_eq_ok.mp h
      cases h
      have hop := groupOperatorOf_eq_ok_iff.mp ho
      refine ⟨members, .group, rfl, ⟨htag, fun _ => ⟨o, hop⟩⟩, rfl, ?_⟩
      rintro (_ | _ | _) n ⟨⟩
      exact hchild
    | boolean o =>
      obtain ⟨l, r, hl, hr, rfl⟩ := decodeSides_eq_ok h
      refine ⟨members, .boolean o, rfl, .of_ne_group htag (by simp), rfl, ?_⟩
      rintro (_ | _ | _) n ⟨⟩
      · exact hl
      · exact hr
    | comparison o =>
      obtain ⟨l, r, hl, hr, rfl⟩ := decodeSides_eq_ok h
      refine ⟨members, .comparison o, rfl, .of_ne_group htag (by simp), rfl, ?_⟩
      rintro (_ | _ | _) n ⟨⟩
      · exact hl
      · exact hr
  | _ => simp [decode] at h

/-- The fields of a value that is read are the branches of the node. -/
theorem branch?_of_field {c : Condition} {u : Json} (h : decode path v = .ok c) (hu : Field v b u) :
    ∃ n, c.branch? b = some n ∧ decode (path ++ [b]) u = .ok n := by
  obtain ⟨members, t, rfl, header, hbranches, hread⟩ := header_of_decode h
  have hmem : b ∈ c.branches := by
    rcases hu with ⟨header', hmem, -, -⟩
    rwa [hbranches, header.unique header']
  obtain ⟨n, hn⟩ := Option.isSome_iff_exists.mp ((mem_branches_iff c b).mp hmem)
  exact ⟨n, hn, by rw [← decodeBranch_of_field hu, hread b n hn]⟩

theorem field_of_branch? {c n : Condition} (h : decode path v = .ok c) (hn : c.branch? b = some n) :
    ∃ u, Field v b u ∧ decode (path ++ [b]) u = .ok n := by
  obtain ⟨members, t, rfl, header, hbranches, hread⟩ := header_of_decode h
  have hmem : b ∈ t.branches := by
    rw [← hbranches, mem_branches_iff, hn]
    rfl
  exact decodeBranch_eq_ok header hmem (hread b n hn)

/-- Where a path leads to a value, the tree has the node that the value is read as. -/
theorem get?_of_leads {c : Condition} {q : Path} {w : Json} (h : ofJson v = .ok c) (hw : Leads v q w) :
    ∃ n, c.get? q = some n ∧ ofJson w = .ok n := by
  induction hw generalizing c with
  | nil v => exact ⟨c, get?_nil c, h⟩
  | @cons v u w b q hu hw ih =>
    obtain ⟨child, hb, hchild⟩ := branch?_of_field h hu
    obtain ⟨n, hn, hread⟩ := ih (decode_anywhere u hchild [])
    exact ⟨n, by rw [get?_cons, hb]; exact hn, hread⟩

theorem leads_of_get? {q : Path} : ∀ {v : Json} {c n : Condition}, ofJson v = .ok c → c.get? q = some n →
    ∃ w, Leads v q w := by
  induction q with
  | nil => exact fun _ _ => ⟨_, .nil _⟩
  | cons b q ih =>
    intro v c n h hn
    rw [get?_cons] at hn
    obtain ⟨child, hb, hchild⟩ := Option.bind_eq_some_iff.mp hn
    obtain ⟨u, hu, hread⟩ := field_of_branch? h hb
    obtain ⟨w, hw⟩ := ih (decode_anywhere u hread []) hchild
    exact ⟨w, .cons hu hw⟩

end Condition

end ConditionTree
