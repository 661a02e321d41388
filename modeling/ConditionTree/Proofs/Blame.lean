import ConditionTree.Proofs.Decoder
import ConditionTree.Proofs.PathText

/-!
# What the decoder blames

A value that is no condition has faults, maybe many of them. The decoder reports the first one: it checks a node before
its branches and the left branch before the right one (`ofJson_eq_error_iff`). So the error tells where to look, and
that everything before it needs no look.
-/

namespace ConditionTree.Condition

open Json

variable {members : List (String × Json)} {v : Json} {b : Branch} {path : Path} {t : Tag} {e : DecodeError}

theorem bind_eq_error {α β ε : Type} {x : Except ε α} {f : α → Except ε β} {e : ε} :
    (x >>= f) = .error e ↔ x = .error e ∨ ∃ a, x = .ok a ∧ f a = .error e := by
  cases x with
  | ok a => simp [ok_bind]
  | error e' => simp [bind, Except.bind]

theorem firstFault_of_decode (v : Json) :
    ∀ {path : Path} {e : DecodeError}, decode path v = .error e → ∃ q, e.path = path ++ q ∧ FirstFault v q e := by
  induction v using field_induction with
  | h v ih =>
    intro path e h
    have hhere : e.path = path ∧ Fault v e → ∃ q, e.path = path ++ q ∧ FirstFault v q e := by
      rintro ⟨hp, hfault⟩
      exact ⟨[], by rw [hp, List.append_nil], firstFault_nil_iff.mpr hfault⟩
    cases v with
    | object members =>
      -- a branch fails because it is missing, or by the first fault of its own value
      have hbranch : ∀ {t : Tag} {b : Branch}, Header members t → b ∈ t.branches →
          (b = .right → ∃ l, Field (.object members) .left l ∧ l.IsCondition) →
          decodeBranch path b members = .error e →
          ∃ q, e.path = path ++ q ∧ FirstFault (.object members) q e := by
        intro t b header hb hleft hfail
        obtain ⟨u, hu, hread⟩ | ⟨hmissing, hread⟩ := decodeBranch_cases header hb
        · obtain ⟨q, hq, hfault⟩ := ih b u hu ((hread path).symm.trans hfail)
          refine ⟨b :: q, ?_, (firstFault_cons_iff hu).mpr ⟨hleft, hfault⟩⟩
          rw [hq, List.append_assoc]
          rfl
        · rw [hread] at hfail
          cases hfail
          exact hhere ⟨rfl, .noBranch header hb hmissing hleft⟩
      have hsides : ∀ {t : Tag} {join : Condition → Condition → Condition}, Header members t →
          t.branches = [.left, .right] → decodeSides join members path = .error e →
          ∃ q, e.path = path ++ q ∧ FirstFault (.object members) q e := by
        intro t join header hbs hfail
        have hl : .left ∈ t.branches := by simp [hbs]
        have hr : .right ∈ t.branches := by simp [hbs]
        rcases bind_eq_error.mp hfail with hfail | ⟨l, hleft, hfail⟩
        · exact hbranch header hl (by simp) hfail
        · rcases bind_eq_error.mp hfail with hfail | ⟨r, -, hfail⟩
          · refine hbranch header hr (fun _ => ?_) hfail
            obtain ⟨u, hu, hread⟩ := decodeBranch_eq_ok header hl hleft
            exact ⟨u, hu, isCondition_of_decode u hread⟩
          · cases hfail
      rw [decode_object] at h
      rcases bind_eq_error.mp h with h | ⟨t, ht, h⟩
      · exact hhere (fault_of_tagOf h)
      · have htag := tagOf_eq_ok_iff.mp ht
        cases t with
        | number => exact hhere (fault_of_numberOf htag h)
        | reference => exact hhere (fault_of_referenceOf htag h)
        | group =>
          rcases bind_eq_error.mp h with h | ⟨o, ho, h⟩
          · exact hhere (fault_of_groupOperatorOf htag h)
          · rcases bind_eq_error.mp h with h | ⟨child, -, h⟩
            · have hop := groupOperatorOf_eq_ok_iff.mp ho
              exact hbranch (b := .child) ⟨htag, fun _ => ⟨o, hop⟩⟩ (by simp [Tag.branches]) (by simp) h
            · cases h
        | boolean o => exact hsides (.of_ne_group htag (by simp)) rfl h
        | comparison o => exact hsides (.of_ne_group htag (by simp)) rfl h
    | _ =>
      simp only [decode, Except.error.injEq] at h
      subst h
      exact hhere ⟨rfl, .notAnObject (by simp)⟩

/-- A node fails with the error of a branch, if nothing that is read before the branch fails. -/
theorem decode_of_decodeBranch (header : Header members t) (hb : b ∈ t.branches)
    (hleft : b = .right → ∃ l, Field (.object members) .left l ∧ l.IsCondition)
    (h : decodeBranch path b members = .error e) : decode path (.object members) = .error e := by
  have hsides : ∀ join : Condition → Condition → Condition, b = .left ∨ b = .right →
      decodeSides join members path = .error e := by
    rintro join (rfl | rfl)
    · exact bind_eq_error.mpr (.inl h)
    · obtain ⟨u, hu, hcondition⟩ := hleft rfl
      obtain ⟨l, hl⟩ := exists_decode_of_isCondition hcondition (path ++ [.left])
      rw [← decodeBranch_of_field hu] at hl
      exact bind_eq_error.mpr (.inr ⟨l, hl, bind_eq_error.mpr (.inl h)⟩)
  have ht : tagOf members path = .ok t := tagOf_eq_ok_iff.mpr header.tag
  rw [decode_object, ht, ok_bind]
  cases t with
  | number => simp [Tag.branches] at hb
  | reference => simp [Tag.branches] at hb
  | group =>
    have hchild : b = .child := by simpa [Tag.branches] using hb
    subst hchild
    obtain ⟨o, hop⟩ := header.operator rfl
    exact bind_eq_error.mpr (.inr ⟨o, groupOperatorOf_eq_ok_iff.mpr hop, bind_eq_error.mpr (.inl h)⟩)
  | boolean o => exact hsides _ (by simpa [Tag.branches] using hb)
  | comparison o => exact hsides _ (by simpa [Tag.branches] using hb)

theorem decode_of_fault (h : Fault v e) : decode e.path v = .error e := by
  cases h with
  | notAnObject h =>
    cases v with
    | object members => exact absurd rfl (h members)
    | _ => simp [decode, DecodeError.path]
  | untagged h =>
    rw [decode_object]
    refine bind_eq_error.mpr (.inl ?_)
    simp [tagOf, h, DecodeError.path]
  | @tagNotAString members v p h hv =>
    rw [decode_object]
    refine bind_eq_error.mpr (.inl ?_)
    cases v <;> simp_all [tagOf, DecodeError.path]
  | @unknownTag members s p h hs =>
    rw [decode_object]
    refine bind_eq_error.mpr (.inl ?_)
    have hread : Tag.ofText? s = none := by
      cases ht : Tag.ofText? s with
      | none => rfl
      | some t =>
        rw [Tag.ofText?_eq_some_iff.mp ht] at hs
        exact absurd t.text_mem_texts hs
    simp [tagOf, h, hread, DecodeError.path]
  | @value members u p tag h hv =>
    rw [decode_object]
    refine bind_eq_error.mpr (.inr ⟨.number, tagOf_eq_ok_iff.mpr tag, ?_⟩)
    have hread : u.asDouble?.filter Double.isFinite = none := by
      refine Option.filter_eq_none_iff.mpr fun x hx hfinite => hv ⟨x, hx, hfinite⟩
    simp [decodeAs, numberOf, h, hread, DecodeError.path]
  | @series members u p tag h hv =>
    rw [decode_object]
    refine bind_eq_error.mpr (.inr ⟨.reference, tagOf_eq_ok_iff.mpr tag, ?_⟩)
    cases u with
    | null => exact absurd (.inl rfl) hv
    | string s => exact absurd (.inr ⟨s, rfl⟩) hv
    | _ => simp [decodeAs, referenceOf, h, DecodeError.path]
  | @noOperator members p tag h =>
    rw [decode_object]
    refine bind_eq_error.mpr (.inr ⟨.group, tagOf_eq_ok_iff.mpr tag, bind_eq_error.mpr (.inl ?_)⟩)
    simp [groupOperatorOf, h, DecodeError.path]
  | @unknownOperator members u p tag h hv =>
    rw [decode_object]
    refine bind_eq_error.mpr (.inr ⟨.group, tagOf_eq_ok_iff.mpr tag, bind_eq_error.mpr (.inl ?_)⟩)
    have hread : u.asString?.bind Connective.ofSymbol? = none := by
      cases hs : u.asString?.bind Connective.ofSymbol? with
      | none => rfl
      | some o =>
        obtain ⟨s, hs, ho⟩ := Option.bind_eq_some_iff.mp hs
        cases u <;> cases hs
        exact absurd (by rw [Connective.symbol_of_ofSymbol? ho]) (hv o)
    simp [groupOperatorOf, h, hread, DecodeError.path]
  | noBranch header mem h hleft =>
    exact decode_of_decodeBranch header mem hleft (decodeBranch_of_missing h)

theorem decode_of_firstFault : ∀ {q path : Path} {v : Json}, FirstFault v q e → e.path = path ++ q →
    decode path v = .error e
  | [], path, v, h, hp => by
    rw [List.append_nil] at hp
    rw [← hp]
    exact decode_of_fault (firstFault_nil_iff.mp h)
  | b :: q, path, v, h, hp => by
    have ⟨w, hw, _⟩ := h
    rcases hw with _ | ⟨hu, -⟩
    obtain ⟨hleft, hrest⟩ := (firstFault_cons_iff hu).mp h
    have hpath : e.path = path ++ [b] ++ q := by
      rw [hp, List.append_assoc]
      rfl
    have hfail := decode_of_firstFault hrest hpath
    rcases hu with ⟨header, hb, hu, hnull⟩
    rw [← decodeBranch_of_lookup hu hnull] at hfail
    exact decode_of_decodeBranch header hb hleft hfail

/-- **The error of a value is its first fault.** -/
theorem ofJson_eq_error_iff : ofJson v = .error e ↔ FirstFault v e.path e := by
  constructor
  · intro h
    obtain ⟨q, hq, hfault⟩ := firstFault_of_decode v h
    rwa [hq]
  · exact fun h => decode_of_firstFault h rfl

/-- **The decoder accepts what the grammar says and blames the first fault.** A value is read as a tree exactly if it
is a condition. The tree has a node exactly where a path leads to a value, and it is what that value is read as. Any
other value is refused with the error of its first fault, whose path is found again in its text: the path leads through
right headers to a value with that fault, and all that stands to the left of the way is a condition. -/
theorem decoder_accepts_grammar_and_blames_first_fault (v : Json) :
    ((∃ c, ofJson v = .ok c) ↔ v.IsCondition) ∧
    (∀ c, ofJson v = .ok c → ∀ p, ((∃ n, c.get? p = some n) ↔ ∃ w, Leads v p w) ∧
      ∀ n w, c.get? p = some n → Leads v p w → ofJson w = .ok n) ∧
    (∀ e, ofJson v = .error e ↔ FirstFault v e.path e) ∧
    ∀ e, ofJson v = .error e → Path.ofText e.path.text = .ok e.path ∧ (∃ w, Leads v e.path w ∧ Fault w e) ∧
      ∀ q b, q ++ [b] <+: e.path → (∃ members t, Leads v q (.object members) ∧ Header members t ∧ b ∈ t.branches) ∧
        (b = .right → ∃ l c, Leads v (q ++ [.left]) l ∧ ofJson l = .ok c) := by
  refine ⟨exists_ofJson_iff, fun c h p => ⟨⟨?_, ?_⟩, ?_⟩, fun e => ofJson_eq_error_iff, fun e h => ?_⟩
  · rintro ⟨n, hn⟩
    exact leads_of_get? h hn
  · rintro ⟨w, hw⟩
    obtain ⟨n, hn, -⟩ := get?_of_leads h hw
    exact ⟨n, hn⟩
  · intro n w hn hw
    obtain ⟨n', hn', hread⟩ := get?_of_leads h hw
    cases hn.symm.trans hn'
    exact hread
  · obtain ⟨w, hw, hfault, hleft⟩ := ofJson_eq_error_iff.mp h
    refine ⟨Path.ofText_text e.path, ⟨w, hw, hfault⟩, fun q b hq => ⟨hw.header hq, ?_⟩⟩
    rintro rfl
    obtain ⟨l, hl, hcondition⟩ := hleft q hq
    obtain ⟨c, hc⟩ := exists_ofJson_iff.mpr hcondition
    exact ⟨l, c, hl, hc⟩

/-- A conjunction of a threshold without a value and of brackets around a comparison, with many faults: neither side
of the comparison is a condition, and what follows the brackets is none either. -/
def faultyRows : Json :=
  .object [("expr", .string "&&"), ("note", .null),
    ("left", .object [("expr", .string "number"), ("left", .bool true)]),
    ("right", .object [("expr", .string "group"), ("operator", .string "||"),
      ("child", .object [("expr", .string ">"), ("left", .null), ("right", .int 3)])])]

/-- The first of the faults is the left side that is null. The threshold to its left is read alone, and its own member
`left` is no branch. -/
theorem null_side_blamed_first :
    ofJson faultyRows = .error (.missingField "left" [.right, .child]) ∧
    FirstFault faultyRows [.right, .child] (.missingField "left" [.right, .child]) ∧
    Path.ofText (Path.text [.right, .child]) = .ok [.right, .child] ∧
    (∃ l c, Leads faultyRows [.left] l ∧ ofJson l = .ok c) ∧
    ofJson (.object [("expr", .string "number"), ("left", .bool true)]) = .ok (number .zero) ∧
    IsCondition (.object [("expr", .string "number"), ("left", .bool true)]) ∧
    ¬ ∃ w, Leads (.object [("expr", .string "number"), ("left", .bool true)]) [.left] w := by
  have hfail : ofJson faultyRows = .error (.missingField "left" [.right, .child]) := rfl
  have hread : ofJson (.object [("expr", .string "number"), ("left", .bool true)]) = .ok (number .zero) := rfl
  obtain ⟨-, -, hfirst, herror⟩ := decoder_accepts_grammar_and_blames_first_fault faultyRows
  obtain ⟨haccept, hplaces, -⟩ := decoder_accepts_grammar_and_blames_first_fault
    (.object [("expr", .string "number"), ("left", .bool true)])
  obtain ⟨htext, -, hway⟩ := herror _ hfail
  have hleft := (hway [] .right (List.prefix_append _ _)).2 rfl
  refine ⟨hfail, (hfirst _).mp hfail, htext, hleft, hread, haccept.mp ⟨_, hread⟩, fun hw => ?_⟩
  obtain ⟨n, hn⟩ := (hplaces _ hread [.left]).1.mpr hw
  cases hn

end ConditionTree.Condition
