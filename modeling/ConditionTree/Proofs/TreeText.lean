import ConditionTree.Condition.Text
import ConditionTree.Proofs.Printing
import ConditionTree.Proofs.RoundTrip

/-!
# Trees in texts

A tree is printed as JSON and read as JSON5. The reader takes the text of any normal value for that value
(`ofText_jsonText`), and the JSON form of a tree is normal whatever its series are called, so a tree of finite numbers
is read back from both of its texts (`text_round_trip`).
-/

namespace ConditionTree

namespace Condition

variable {v : Json} {c : Condition} {text : String}

/-- The tree in a printed text is the one in the value. -/
theorem ofText_jsonText (config : Config) (hv : v.IsNormal) :
    ofText (CommandLine.jsonText config v) = (ofJson v).mapError .invalid := by
  obtain ⟨hread, -⟩ := Json5.document?_jsonText config hv
  simp only [ofText, hread]

theorem ofText_compact (hv : v.IsNormal) : ofText v.compact = (ofJson v).mapError .invalid :=
  ofText_jsonText { pretty := false } hv

theorem ofText_pretty (hv : v.IsNormal) : ofText v.pretty = (ofJson v).mapError .invalid :=
  ofText_jsonText { pretty := true } hv

theorem ofText_eq_ok_iff : ofText text = .ok c ↔ ∃ v, Json5.document? text = some v ∧ ofJson v = .ok c := by
  unfold ofText
  cases Json5.document? text with
  | none => simp
  | some v => cases hv : ofJson v <;> simp [Except.mapError, hv]

/-- A tree is read back from both texts, but for the signs of zeros. -/
theorem ofText_toJson (h : c.AllFinite) :
    ofText c.toJson.compact = .ok c.positiveZeros ∧ ofText c.toJson.pretty = .ok c.positiveZeros := by
  have hread : ofJson c.toJson = .ok c.positiveZeros := decode_toJson h []
  rw [ofText_compact (isNormal_toJson c), ofText_pretty (isNormal_toJson c), hread]
  exact ⟨rfl, rfl⟩

end Condition

open Condition

/-- **Trees survive the text format.** A tree of finite numbers is read back from its compact and from its pretty text,
whatever its series are called: with positive zeros and otherwise unchanged, so as it was if it has no negative zero.
No other tree has a text that is read as a tree. What any text is read as can be printed and read again, and is equal to
what is read then. -/
theorem text_round_trip :
    (∀ c : Condition, c.AllFinite →
      ofText c.toJson.compact = .ok c.positiveZeros ∧ ofText c.toJson.pretty = .ok c.positiveZeros) ∧
    (∀ c : Condition, c.AllFinite → (∀ p, c.get? p ≠ some (number (.signedZero true))) →
      ofText c.toJson.compact = .ok c ∧ ofText c.toJson.pretty = .ok c) ∧
    (∀ c c' : Condition, ofText c.toJson.compact = .ok c' ∨ ofText c.toJson.pretty = .ok c' → c.AllFinite) ∧
    ∀ (text : String) (c : Condition), ofText text = .ok c →
      ∃ c', ofText c.toJson.compact = .ok c' ∧ ofText c.toJson.pretty = .ok c' ∧ c'.equal c := by
  refine ⟨fun c hc => ofText_toJson hc, fun c hc hsigns => ?_, fun c c' h => ?_, fun text c h => ?_⟩
  · have hsame : c.positiveZeros = c := positiveZeros_eq_self_iff.mpr hsigns
    have hread := ofText_toJson hc
    rw [hsame] at hread
    exact hread
  · rw [ofText_compact (isNormal_toJson c), ofText_pretty (isNormal_toJson c), or_self] at h
    cases hread : ofJson c.toJson with
    | error e =>
      rw [hread] at h
      cases h
    | ok t => exact allFinite_of_decode_toJson hread
  · obtain ⟨v, -, hv⟩ := ofText_eq_ok_iff.mp h
    have hc : c.AllFinite := allFinite_of_ofJson hv
    obtain ⟨hcompact, hpretty⟩ := ofText_toJson hc
    exact ⟨c.positiveZeros, hcompact, hpretty, positiveZeros_equal hc⟩

/-- A name that holds quotes, a backslash, control characters, a line separator and what looks like a comment. -/
def oddName : String :=
  "\"\\ /* \x01\x08\n\r\u2028 */ // é😀"

/-- A negative zero, with a comment and a comma too many. -/
def commentedZero : String :=
  "\x7bexpr: \"number\", value: -0.0,\x7d // zero"

/-- Two sides of odd names around numbers that are written as a whole number, with an exponent, and with a sign that is
lost. -/
def Condition.oddTree : Condition :=
  boolean .and (comparison .less (reference (some oddName)) (number (.finite false ⟨1, by decide⟩)))
    (group .or (boolean .or (comparison .equal (number (.signedZero true)) (reference (some "")))
      (comparison .atLeast (reference none) (number (.finite true ⟨0x4340000000000001, by decide⟩)))))

/-- Odd names are read back from both texts, and the smallest number as well; a negative zero comes back as zero. -/
theorem odd_tree_round_trip :
    oddTree.AllFinite ∧
    ofText oddTree.toJson.compact = .ok oddTree.positiveZeros ∧
    ofText oddTree.toJson.pretty = .ok oddTree.positiveZeros ∧
    oddTree.positiveZeros.get? [.right, .child, .left, .left] = some (number .zero) ∧
    oddTree.positiveZeros.get? [.left] = oddTree.get? [.left] ∧
    (∀ p, (comparison .less (reference (some oddName)) (number .zero)).get? p ≠ some (number (.signedZero true))) ∧
    ofText (comparison .less (reference (some oddName)) (number .zero)).toJson.pretty =
      .ok (comparison .less (reference (some oddName)) (number .zero)) ∧
    ofText commentedZero = .ok (number (.signedZero true)) ∧
    ∃ c', ofText (number (.signedZero true)).toJson.compact = .ok c' ∧ c'.equal (number (.signedZero true)) := by
  have hfinite : oddTree.AllFinite := ⟨⟨trivial, rfl⟩, ⟨rfl, trivial⟩, trivial, rfl⟩
  have hsigns : ∀ p, (comparison .less (reference (some oddName)) (number .zero)).get? p ≠
      some (number (.signedZero true)) := positiveZeros_eq_self_iff.mp rfl
  have htext : ofText commentedZero = .ok (number (.signedZero true)) := by
    have hsome : (ofText commentedZero).toOption = some (number (.signedZero true)) := by decide +kernel
    cases hread : ofText commentedZero with
    | error e =>
      rw [hread] at hsome
      cases hsome
    | ok c =>
      rw [hread] at hsome
      cases hsome
      rfl
  obtain ⟨hback, hexact, -, hagain⟩ := text_round_trip
  obtain ⟨hcompact, hpretty⟩ := hback oddTree hfinite
  obtain ⟨-, hplain⟩ := hexact (comparison .less (reference (some oddName)) (number .zero)) ⟨trivial, rfl⟩ hsigns
  obtain ⟨c', hc', -, hequal⟩ := hagain _ _ htext
  exact ⟨hfinite, hcompact, hpretty, rfl, rfl, hsigns, hplain, htext, c', hc', hequal⟩

end ConditionTree
