import ConditionTree.Condition.Wire
import ConditionTree.Proofs.Rounding

/-!
# Reading back the JSON form

A tree is read back from its JSON form exactly if all its numbers are finite (`ofJson_toJson_iff`), and is then the
same but for the sign of zeros. What is read from any value has finite numbers only (`allFinite_of_ofJson`).
-/

namespace ConditionTree.Condition

/-- Every threshold of the tree is a finite number. -/
def AllFinite : Condition → Prop
  | number x => x.isFinite
  | reference _ => True
  | comparison _ l r | boolean _ l r => l.AllFinite ∧ r.AllFinite
  | group _ child => child.AllFinite

/-- The tree without the signs of zeros. -/
def positiveZeros : Condition → Condition
  | number x => number x.positiveZero
  | reference s => reference s
  | comparison o l r => comparison o l.positiveZeros r.positiveZeros
  | boolean o l r => boolean o l.positiveZeros r.positiveZeros
  | group o child => group o child.positiveZeros

theorem positiveZeros_equal {c : Condition} (h : c.AllFinite) : c.positiveZeros.equal c := by
  induction c with
  | number x => exact Double.positiveZero_equal h
  | reference s => exact beq_self_eq_true s
  | comparison o l r ihl ihr | boolean o l r ihl ihr =>
    simp [positiveZeros, equal, ihl h.1, ihr h.2]
  | group o child ih => simp [positiveZeros, equal, ih h]

/-! ### What is written -/

theorem asDouble?_numberJson {x : Double} (h : x.isFinite) :
    (numberJson x).asDouble? = some x.positiveZero := by
  unfold numberJson
  cases hx : x.toInt? with
  | none =>
    rw [Double.positiveZero_of_toInt?_ne (by simp [hx])]
    simp [h, Json.asDouble?]
  | some i =>
    dsimp only
    split_ifs with hi
    · exact congrArg some (Double.ofInt_of_toInt? hx)
    · have hne : x.toInt? ≠ some 0 := by
        rw [hx]
        rintro ⟨⟩
        exact hi (by decide)
      rw [Double.positiveZero_of_toInt?_ne hne]
      rfl

theorem numberJson_of_not_isFinite {x : Double} (h : x.isFinite = false) : numberJson x = .null := by
  cases x with
  | finite => cases h
  | infinite | nan => rfl

theorem ofText?_comparator (o : Comparator) : Tag.ofText? o.symbol = some (.comparison o) := by
  cases o <;> rfl

theorem ofText?_connective (o : Connective) : Tag.ofText? o.symbol = some (.boolean o) := by
  cases o <;> rfl

@[simp] theorem isNull_toJson (c : Condition) : c.toJson.isNull = false := by
  cases c with
  | reference s => cases s <;> rfl
  | _ => rfl

variable {path : Path} {o : Connective} {l r child c : Condition}

theorem ok_bind {α β ε : Type} (x : α) (f : α → Except ε β) : (Except.ok x >>= f) = f x := rfl

theorem decode_number (x : Double) : decode path (number x).toJson =
    if x.isFinite then .ok (number x.positiveZero) else .error (.valueNotFinite .null path) := by
  have hv : decode path (number x).toJson =
      numberOf [("expr", .string "number"), ("value", numberJson x)] path := rfl
  rw [hv]
  cases hx : x.isFinite with
  | true => simp [numberOf, List.lookup_cons, asDouble?_numberJson hx, Option.filter, hx]
  | false => simp [numberOf, List.lookup_cons, numberJson_of_not_isFinite hx, Json.asDouble?]

theorem decode_comparison (o : Comparator) : decode path (comparison o l r).toJson = do
    let l ← decode (path ++ [.left]) l.toJson
    let r ← decode (path ++ [.right]) r.toJson
    return comparison o l r := by
  simp [toJson, decode, tagOf, decodeBranch, Branch.name, ofText?_comparator,
    ok_bind]

theorem decode_boolean : decode path (boolean o l r).toJson = do
    let l ← decode (path ++ [.left]) l.toJson
    let r ← decode (path ++ [.right]) r.toJson
    return boolean o l r := by
  simp [toJson, decode, tagOf, decodeBranch, Branch.name, ofText?_connective,
    ok_bind]

theorem decode_group : decode path (group o child).toJson = do
    let child ← decode (path ++ [.child]) child.toJson
    return group o child := by
  simp [toJson, decode, tagOf, decodeBranch, Branch.name, groupOperatorOf, Tag.ofText?,
    Json.asString?, List.lookup_cons, ok_bind]

/-! ### What is read back -/

theorem bind_eq_ok {α β ε : Type} {x : Except ε α} {f : α → Except ε β} {b : β} :
    (x >>= f) = .ok b ↔ ∃ a, x = .ok a ∧ f a = .ok b := by
  cases x with
  | ok a => simp [ok_bind]
  | error e => exact ⟨fun h => (nomatch h), fun ⟨_, h, _⟩ => nomatch h⟩

/-- **A tree of finite numbers is read back**, but for the signs of zeros. -/
theorem decode_toJson (h : c.AllFinite) (path : Path) : decode path c.toJson = .ok c.positiveZeros := by
  induction c generalizing path with
  | number x =>
    have hx : x.isFinite := h
    rw [decode_number, if_pos hx]
    rfl
  | reference s => cases s <;> rfl
  | comparison o l r ihl ihr => rw [decode_comparison, ihl h.1, ihr h.2]; rfl
  | boolean o l r ihl ihr => rw [decode_boolean, ihl h.1, ihr h.2]; rfl
  | group o child ih => rw [decode_group, ih h]; rfl

/-- No other tree is read back. -/
theorem allFinite_of_decode_toJson {c' : Condition} (h : decode path c.toJson = .ok c') :
    c.AllFinite := by
  induction c generalizing path c' with
  | number x =>
    rw [decode_number] at h
    split_ifs at h with hx
    exact hx
  | reference s => trivial
  | comparison o l r ihl ihr =>
    rw [decode_comparison] at h
    obtain ⟨l', hl, h⟩ := bind_eq_ok.mp h
    obtain ⟨r', hr, -⟩ := bind_eq_ok.mp h
    exact ⟨ihl hl, ihr hr⟩
  | boolean o l r ihl ihr =>
    rw [decode_boolean] at h
    obtain ⟨l', hl, h⟩ := bind_eq_ok.mp h
    obtain ⟨r', hr, -⟩ := bind_eq_ok.mp h
    exact ⟨ihl hl, ihr hr⟩
  | group o child ih =>
    rw [decode_group] at h
    obtain ⟨child', hchild, -⟩ := bind_eq_ok.mp h
    exact ih hchild

mutual

/-- Numbers are read as they are checked. -/
theorem allFinite_of_decode : ∀ (v : Json) (path : Path) {c : Condition},
    decode path v = .ok c → c.AllFinite
  | .object members, path, c, h => by
    rw [decode] at h
    obtain ⟨tag, -, h⟩ := bind_eq_ok.mp h
    cases tag with
    | number =>
      simp only [numberOf] at h
      split at h
      · cases h; rfl
      · split at h
        · rename_i hx
          cases h
          exact (Option.filter_eq_some_iff.mp hx).2
        · cases h
    | reference =>
      simp only [referenceOf] at h
      split at h <;> cases h <;> trivial
    | group =>
      obtain ⟨o, -, h⟩ := bind_eq_ok.mp h
      obtain ⟨child, hchild, h⟩ := bind_eq_ok.mp h
      cases h
      have hfinite := allFinite_of_decodeBranch members path .child hchild
      exact hfinite
    | boolean o | comparison o =>
      obtain ⟨l, hl, h⟩ := bind_eq_ok.mp h
      obtain ⟨r, hr, h⟩ := bind_eq_ok.mp h
      cases h
      exact ⟨allFinite_of_decodeBranch members path .left hl,
        allFinite_of_decodeBranch members path .right hr⟩
  | .null, _, _, h | .bool _, _, _, h | .int _, _, _, h | .double _, _, _, h | .string _, _, _, h
  | .array _, _, _, h => by simp [decode] at h

theorem allFinite_of_decodeBranch : ∀ (members : List (String × Json)) (path : Path) (b : Branch)
    {c : Condition}, decodeBranch path b members = .ok c → c.AllFinite
  | [], _, _, _, h => by simp [decodeBranch] at h
  | (key, v) :: rest, path, b, c, h => by
    rw [decodeBranch] at h
    split_ifs at h with hkey hnull
    · exact allFinite_of_decode v (path ++ [b]) h
    · exact allFinite_of_decodeBranch rest path b h

end

theorem allFinite_of_ofJson {v : Json} (h : ofJson v = .ok c) : c.AllFinite :=
  allFinite_of_decode v [] h

/-- What is saved can be loaded exactly if all its numbers are finite. -/
theorem ofJson_toJson_iff : (∃ c', ofJson c.toJson = .ok c' ∧ c'.equal c) ↔ c.AllFinite :=
  ⟨fun ⟨_, h, _⟩ => allFinite_of_decode_toJson h,
    fun h => ⟨_, decode_toJson h [], positiveZeros_equal h⟩⟩

end ConditionTree.Condition
