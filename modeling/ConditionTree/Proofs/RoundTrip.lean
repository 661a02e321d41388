import ConditionTree.Edit.Change
import ConditionTree.Proofs.Wire

/-!
# Round trips

What is written as JSON is read back as it was, except for the sign of zeros (`json_round_trip`), also within a change,
where no tree and a tree stay apart. In the other direction a value that is read as a tree may be written anew, since
much of it counts for nothing; from then on the JSON form does not change any more (`toJson_positiveZeros`).
-/

namespace ConditionTree

namespace Double

/-- Only the zero with a sign is changed. -/
theorem positiveZero_eq_ite (x : Double) :
    x.positiveZero = if x = signedZero true then zero else x := by
  cases x with
  | infinite | nan => rfl
  | finite negative m =>
    by_cases hm : m = 0
    · subst hm
      cases negative <;> rfl
    · have hval : m.val ≠ 0 := fun h => hm (Fin.ext h)
      have hne : finite negative m ≠ signedZero true := fun h => hm (by cases h; rfl)
      rw [if_neg hne, positiveZero]
      simp [hval]

end Double

namespace Condition

theorem branch?_positiveZeros (c : Condition) (b : Branch) :
    c.positiveZeros.branch? b = (c.branch? b).map positiveZeros := by
  cases c <;> cases b <;> rfl

/-- The places stay, and what stands there loses its signs of zeros only. -/
theorem get?_positiveZeros (c : Condition) (p : Path) :
    c.positiveZeros.get? p = (c.get? p).map positiveZeros := by
  induction p generalizing c with
  | nil => simp
  | cons b p ih =>
    rw [get?_cons, get?_cons, branch?_positiveZeros]
    cases c.branch? b with
    | none => rfl
    | some child => exact ih child

/-- Exactly the trees without negative zeros have no sign to lose. -/
theorem positiveZeros_eq_self_iff {c : Condition} :
    c.positiveZeros = c ↔ ∀ p, c.get? p ≠ some (number (.signedZero true)) := by
  constructor
  · intro h p hp
    have hplace := get?_positiveZeros c p
    rw [h, hp] at hplace
    cases hplace
  · intro h
    induction c with
    | number x =>
      have hx : x ≠ .signedZero true := fun hx => h [] (by rw [get?_nil, hx])
      rw [positiveZeros, Double.positiveZero_eq_ite, if_neg hx]
    | reference s => rfl
    | comparison o l r ihl ihr | boolean o l r ihl ihr =>
      rw [positiveZeros, ihl fun p hp => h (.left :: p) (by rw [get?_cons]; exact hp),
        ihr fun p hp => h (.right :: p) (by rw [get?_cons]; exact hp)]
    | group o child ih =>
      rw [positiveZeros, ih fun p hp => h (.child :: p) (by rw [get?_cons]; exact hp)]

theorem numberJson_positiveZero (x : Double) : numberJson x.positiveZero = numberJson x := by
  rw [Double.positiveZero_eq_ite]
  split_ifs with hx
  · rw [hx]
    rfl
  · rfl

/-- The sign of a zero is not written. -/
theorem toJson_positiveZeros (c : Condition) : c.positiveZeros.toJson = c.toJson := by
  induction c with
  | number x => rw [positiveZeros, toJson, toJson, numberJson_positiveZero]
  | reference s => rfl
  | comparison o l r ihl ihr | boolean o l r ihl ihr => rw [positiveZeros, toJson, toJson, ihl, ihr]
  | group o child ih => rw [positiveZeros, toJson, toJson, ih]

end Condition

open Condition

/-- A tree of a change is one that is not null. -/
theorem Change.ofTree_toJson {c : Condition} (h : c.AllFinite) :
    Change.ofTree c.toJson = .ok ⟨some c.positiveZeros⟩ := by
  have hread : Change.ofTree c.toJson = (ofJson c.toJson).map fun c => ⟨some c⟩ := by
    cases hv : c.toJson with
    | null =>
      have hnull := isNull_toJson c
      rw [hv] at hnull
      cases hnull
    | _ => rfl
  rw [hread, ofJson, decode_toJson h []]
  rfl

theorem Change.ofJson?_toJson {change : Change} (h : ∀ c ∈ change.conditions, c.AllFinite) :
    Change.ofJson? change.toJson = some ⟨change.conditions.map positiveZeros⟩ := by
  obtain ⟨conditions⟩ := change
  cases conditions with
  | none => rfl
  | some c =>
    have hfields : Change.ofJson? (Change.toJson ⟨some c⟩) = (Change.ofTree c.toJson).toOption := rfl
    rw [hfields, Change.ofTree_toJson (h c rfl)]
    rfl

/-- **Reading undoes writing.** A tree of finite numbers is read back with positive zeros and otherwise unchanged, and
so exactly if it has no negative zero; a change is read back with its tree, or with none. Conversely every value that
is read as a tree gives one that is written and read back, and written the same again. -/
theorem json_round_trip :
    (∀ c : Condition, c.AllFinite → ofJson c.toJson = .ok c.positiveZeros) ∧
    (∀ c : Condition, c.AllFinite → (∀ p, c.get? p ≠ some (number (.signedZero true))) →
      ofJson c.toJson = .ok c) ∧
    (∀ change : Change, (∀ c ∈ change.conditions, c.AllFinite) →
      Change.ofJson? change.toJson = some ⟨change.conditions.map positiveZeros⟩) ∧
    ∀ (v : Json) (c : Condition), ofJson v = .ok c →
      ∃ c', ofJson c.toJson = .ok c' ∧ c' = c.positiveZeros ∧ c'.equal c ∧ c'.toJson = c.toJson := by
  refine ⟨fun c hc => decode_toJson hc [], fun c hc hp => ?_, fun change h => Change.ofJson?_toJson h,
    fun v c hv => ?_⟩
  · rw [ofJson, decode_toJson hc [], positiveZeros_eq_self_iff.mpr hp]
  · have hc : c.AllFinite := allFinite_of_ofJson hv
    exact ⟨c.positiveZeros, decode_toJson hc [], rfl, positiveZeros_equal hc, toJson_positiveZeros c⟩

/-- The whole numbers `2 ^ 53` and `2 ^ 63`, of which only the first goes out as one, and a series of odd name. -/
def Condition.wholeNumbers : Condition :=
  boolean .or (comparison .less (number (.finite false ⟨0x4340000000000000, by decide⟩)) (reference (some "a \"b")))
    (group .and (comparison .equal (number (.finite true ⟨0x43E0000000000000, by decide⟩)) (reference none)))

/-- Whole numbers at both ends of what goes out as such are read back, in a change as well; a negative zero loses its
sign, and so does one that is read beside members of no meaning. -/
theorem whole_numbers_round_trip :
    wholeNumbers.AllFinite ∧ (∀ p, wholeNumbers.get? p ≠ some (number (.signedZero true))) ∧
    numberJson (.finite false 0x4340000000000000) = .int 0x20000000000000 ∧
    numberJson (.finite true 0x43E0000000000000) = .double (.finite true 0x43E0000000000000) ∧
    ofJson wholeNumbers.toJson = .ok wholeNumbers ∧
    ofJson (number (.signedZero true)).toJson = .ok (number .zero) ∧
    (∀ c ∈ (⟨some wholeNumbers⟩ : Change).conditions, c.AllFinite) ∧
    Change.ofJson? (Change.toJson ⟨some wholeNumbers⟩) = some ⟨some wholeNumbers⟩ ∧
    Change.ofJson? (Change.toJson ⟨none⟩) = some ⟨none⟩ ∧
    ofJson (.object [("note", .null), ("value", .double (.signedZero true)), ("expr", .string "number")]) =
      .ok (number (.signedZero true)) ∧
    ∃ c', ofJson (number (.signedZero true)).toJson = .ok c' ∧ c' = number .zero ∧
      c'.toJson = (number (.signedZero true)).toJson := by
  have hfinite : wholeNumbers.AllFinite := ⟨⟨rfl, trivial⟩, ⟨rfl, trivial⟩⟩
  have hsigns : ∀ p, wholeNumbers.get? p ≠ some (number (.signedZero true)) :=
    positiveZeros_eq_self_iff.mp rfl
  have hchange : ∀ c ∈ (⟨some wholeNumbers⟩ : Change).conditions, c.AllFinite := by
    rintro c ⟨⟩
    exact hfinite
  have hread : ofJson (.object [("note", .null), ("value", .double (.signedZero true)), ("expr", .string "number")]) =
      .ok (number (.signedZero true)) := rfl
  obtain ⟨hzero, hexact, hchanges, hvalues⟩ := json_round_trip
  obtain ⟨c', hc', hpositive, -, hjson⟩ := hvalues _ _ hread
  exact ⟨hfinite, hsigns, rfl, rfl, hexact _ hfinite hsigns, hzero _ rfl, hchange, hchanges _ hchange,
    hchanges ⟨none⟩ nofun, hread, c', hc', hpositive, hjson⟩

end ConditionTree
