import ConditionTree.Document
import ConditionTree.Proofs.Pointers
import ConditionTree.Proofs.RoundTrip

/-!
# Conditions inside documents

A document with a pointer is a lens on its condition (`document_is_a_lens`). Reading and writing miss the place for the
same pointers; what is written is read back, the last of several conditions written is the one that counts, writing what
was read changes nothing, and everything apart from the place stays.
-/

namespace ConditionTree

open Condition

/-- The value that stands in a document for a condition, or for none. -/
def Condition.content (c : Option Condition) : Json :=
  (c.map toJson).getD .null

/-- What stands for a condition does not tell the signs of zeros. -/
theorem Condition.content_congr {c c' : Option Condition} (h : c.map positiveZeros = c'.map positiveZeros) :
    content c = content c' := by
  have hjson : ∀ c : Option Condition, content c = ((c.map positiveZeros).map toJson).getD .null := fun c => by
    cases c with
    | none => rfl
    | some c => exact (toJson_positiveZeros c).symm
  rw [hjson c, hjson c', h]

namespace Document

/-- The tokens that lead to the condition; without a pointer it is the whole document. -/
def tokens? (d : Document) : Option (List String) :=
  match d.pointer with
  | none => some []
  | some p => Json.pointerTokens? p

variable {d : Document} {c c' : Option Condition} {v root r : Json} {pointer : Option String}
  {e : DocumentError}

/-! ### Where reading and writing take place -/

theorem raw_eq_ok_iff : d.raw = .ok v ↔ ∃ ts, d.tokens? = some ts ∧ d.root.at? ts = some v := by
  unfold raw tokens?
  cases d.pointer with
  | none => simp [Json.at?_nil]
  | some p =>
    dsimp only
    cases Json.pointerTokens? p with
    | none => simp
    | some ts => cases hv : d.root.at? ts <;> simp [hv]

theorem replace_eq_ok_iff :
    d.replace c = .ok r ↔ ∃ ts, d.tokens? = some ts ∧ Json.setAt? (content c) d.root ts = some r := by
  unfold replace tokens? content
  cases d.pointer with
  | none => simp [Json.setAt?_nil]
  | some p =>
    dsimp only
    cases Json.pointerTokens? p with
    | none => simp
    | some ts => cases hr : Json.setAt? ((c.map toJson).getD .null) d.root ts <;> simp [hr]

theorem replace_congr (h : content c = content c') : d.replace c = d.replace c' := by
  unfold content at h
  unfold replace
  rw [h]

/-- Writing succeeds wherever there is something to read. -/
theorem exists_replace_iff : (∃ r, d.replace c = .ok r) ↔ ∃ v, d.raw = .ok v := by
  constructor
  · rintro ⟨r, hr⟩
    obtain ⟨ts, hts, hset⟩ := replace_eq_ok_iff.mp hr
    have hfound := Json.isSome_setAt? (content c) ts d.root
    rw [hset] at hfound
    obtain ⟨v, hv⟩ := Option.isSome_iff_exists.mp hfound.symm
    exact ⟨v, raw_eq_ok_iff.mpr ⟨ts, hts, hv⟩⟩
  · rintro ⟨v, hv⟩
    obtain ⟨ts, hts, hat⟩ := raw_eq_ok_iff.mp hv
    have hfound := Json.isSome_setAt? (content c) ts d.root
    rw [hat] at hfound
    obtain ⟨r, hr⟩ := Option.isSome_iff_exists.mp hfound
    exact ⟨r, replace_eq_ok_iff.mpr ⟨ts, hts, hr⟩⟩

/-- Reading the raw value and writing fail for one cause, which names the pointer. -/
theorem raw_eq_error (h : d.raw = .error e) : ∃ p, d.pointer = some p ∧ e = .pointerNotFound p := by
  unfold raw at h
  cases hp : d.pointer with
  | none => simp [hp] at h
  | some p =>
    rw [hp] at h
    dsimp only at h
    split at h
    · cases h
    · cases h
      exact ⟨p, rfl, rfl⟩

theorem replace_eq_error (h : d.replace c = .error e) : ∃ p, d.pointer = some p ∧ e = .pointerNotFound p := by
  unfold replace at h
  cases hp : d.pointer with
  | none => simp [hp] at h
  | some p =>
    rw [hp] at h
    dsimp only at h
    split at h
    · cases h
    · cases h
      exact ⟨p, rfl, rfl⟩

theorem raw_eq_error_iff : d.raw = .error e ↔ d.replace c = .error e := by
  constructor
  · intro h
    obtain ⟨p, hp, rfl⟩ := raw_eq_error h
    cases hr : d.replace c with
    | ok r =>
      obtain ⟨v, hv⟩ := exists_replace_iff.mp ⟨r, hr⟩
      rw [hv] at h
      cases h
    | error e' =>
      obtain ⟨p', hp', rfl⟩ := replace_eq_error hr
      rw [hp, Option.some.injEq] at hp'
      rw [hp']
  · intro h
    obtain ⟨p, hp, rfl⟩ := replace_eq_error h
    cases hv : d.raw with
    | ok v =>
      obtain ⟨r, hr⟩ := exists_replace_iff.mpr ⟨v, hv⟩
      rw [hr] at h
      cases h
    | error e' =>
      obtain ⟨p', hp', rfl⟩ := raw_eq_error hv
      rw [hp, Option.some.injEq] at hp'
      rw [hp']

/-! ### What is read -/

/-- The condition that a value stands for. -/
def reading (v : Json) : Except DocumentError (Option Condition) :=
  if v.isNull then .ok none else ((ofJson v).map some).mapError .invalid

theorem condition_of_raw (h : d.raw = .ok v) : d.condition = reading v := by
  rw [condition, h, ok_bind]
  cases v with
  | null => rfl
  | _ =>
    dsimp only [reading, Json.isNull]
    cases ofJson _ <;> rfl

theorem condition_of_raw_error (h : d.raw = .error e) : d.condition = .error e := by
  rw [condition, h]
  rfl

/-- A condition of finite numbers is read back from what stands for it, but for the signs of zeros. -/
theorem reading_content (h : ∀ t ∈ c, t.AllFinite) : reading (content c) = .ok (c.map positiveZeros) := by
  cases c with
  | none => rfl
  | some t =>
    have hread : ofJson t.toJson = .ok t.positiveZeros := decode_toJson (h t rfl) []
    have hnull : (content (some t)).isNull = false := isNull_toJson t
    rw [reading, hnull]
    exact congrArg (fun x => (Except.map some x).mapError DocumentError.invalid) hread

/-- The place is missed in reading exactly if it is missed in writing. -/
theorem condition_eq_pointerNotFound_iff {p : String} :
    d.condition = .error (.pointerNotFound p) ↔ d.replace c = .error (.pointerNotFound p) := by
  rw [← raw_eq_error_iff]
  constructor
  · intro h
    cases hv : d.raw with
    | error e =>
      rw [condition_of_raw_error hv] at h
      cases h
      rfl
    | ok v =>
      rw [condition_of_raw hv, reading] at h
      split_ifs at h
      cases hread : ofJson v with
      | ok t => rw [hread] at h; cases h
      | error e => rw [hread] at h; cases h
  · exact condition_of_raw_error

theorem exists_replace_of_condition {c₀ : Option Condition} (h : d.condition = .ok c₀) (c : Option Condition) :
    ∃ r, d.replace c = .ok r := by
  cases hv : d.raw with
  | ok v => exact exists_replace_iff.mpr ⟨v, hv⟩
  | error e =>
    rw [condition_of_raw_error hv] at h
    cases h

theorem allFinite_of_condition (h : d.condition = .ok c) : ∀ t ∈ c, t.AllFinite := by
  cases hv : d.raw with
  | error e =>
    rw [condition_of_raw_error hv] at h
    cases h
  | ok v =>
    rw [condition_of_raw hv, reading] at h
    split_ifs at h
    · cases h
      simp
    · cases hread : ofJson v with
      | error e => rw [hread] at h; cases h
      | ok t =>
        rw [hread] at h
        cases h
        rintro t' ⟨⟩
        exact allFinite_of_ofJson hread

/-! ### After writing -/

/-- What was written stands at the place. -/
theorem raw_replace (h : (new root pointer).replace c = .ok r) : (new r pointer).raw = .ok (content c) := by
  obtain ⟨ts, hts, hset⟩ := replace_eq_ok_iff.mp h
  have hfound := Json.at?_setAt?_append [] hset
  rw [List.append_nil, Json.at?_nil] at hfound
  exact raw_eq_ok_iff.mpr ⟨ts, hts, hfound⟩

/-- **What was written is read back.** -/
theorem condition_replace (hc : ∀ t ∈ c, t.AllFinite) (h : (new root pointer).replace c = .ok r) :
    (new r pointer).condition = .ok (c.map positiveZeros) := by
  rw [condition_of_raw (raw_replace h), reading_content hc]

/-- **Of two conditions written the last one counts.** -/
theorem replace_replace (h : (new root pointer).replace c = .ok r) (c' : Option Condition) :
    (new r pointer).replace c' = (new root pointer).replace c' := by
  obtain ⟨ts, hts, hset⟩ := replace_eq_ok_iff.mp h
  have hput : Json.setAt? (content c') r ts = Json.setAt? (content c') root ts := Json.setAt?_setAt? _ _ hset
  have hfound : (Json.setAt? (content c') root ts).isSome := by
    rw [Json.isSome_setAt?, ← Json.isSome_setAt? (content c)]
    exact Option.isSome_iff_exists.mpr ⟨r, hset⟩
  obtain ⟨r', hr'⟩ := Option.isSome_iff_exists.mp hfound
  have hfirst : (new root pointer).replace c' = .ok r' := replace_eq_ok_iff.mpr ⟨ts, hts, hr'⟩
  have hsecond : (new r pointer).replace c' = .ok r' := replace_eq_ok_iff.mpr ⟨ts, hts, hput.trans hr'⟩
  rw [hfirst, hsecond]

end Document

open Document

/-- **A document is a lens on its condition.** Reading and writing fail to find the place for the same pointers, and
writing fails for nothing else. After a condition of finite numbers is written it is read back, but for the signs of
zeros; all that is apart from the place is there as before, and nothing else is there but at the place and below it; and
writing once more comes to the same as writing the second condition alone. Writing what was read is read as equal to
it. -/
theorem document_is_a_lens (root : Json) (pointer : Option String) :
    (∀ c p, (Document.new root pointer).condition = .error (.pointerNotFound p) ↔
      (Document.new root pointer).replace c = .error (.pointerNotFound p)) ∧
    (∀ c e, (Document.new root pointer).replace c = .error e → ∃ p, e = .pointerNotFound p) ∧
    (∀ c c₀, (Document.new root pointer).condition = .ok c₀ → ∃ r, (Document.new root pointer).replace c = .ok r) ∧
    (∀ c r, (Document.new root pointer).replace c = .ok r →
      ((∀ t ∈ c, t.AllFinite) → (Document.new r pointer).condition = .ok (c.map positiveZeros)) ∧
      (∃ ts, (Document.new root pointer).tokens? = some ts ∧
        (∀ q, r.at? (ts ++ q) = (content c).at? q) ∧
        (∀ q, ¬ q <+: ts → ¬ ts <+: q → r.at? q = root.at? q) ∧
        ∀ q, ¬ ts <+: q → (r.at? q).isSome = (root.at? q).isSome) ∧
      ∀ c', (Document.new r pointer).replace c' = (Document.new root pointer).replace c') ∧
    ∀ c₀, (Document.new root pointer).condition = .ok c₀ →
      ∃ r c₁, (Document.new root pointer).replace c₀ = .ok r ∧ (Document.new r pointer).condition = .ok c₁ ∧
        c₁ = c₀.map positiveZeros ∧ ∀ t ∈ c₀, t.positiveZeros.equal t := by
  refine ⟨fun c p => condition_eq_pointerNotFound_iff, fun c e h => ?_, fun c c₀ h => exists_replace_of_condition h c,
    fun c r h => ⟨fun hc => condition_replace hc h, ?_, replace_replace h⟩, fun c₀ h => ?_⟩
  · obtain ⟨p, -, he⟩ := replace_eq_error h
    exact ⟨p, he⟩
  · obtain ⟨ts, hts, hset⟩ := replace_eq_ok_iff.mp h
    exact ⟨ts, hts, fun q => Json.at?_setAt?_append q hset, fun q hq hq' => Json.at?_setAt?_apart hset hq hq',
      fun q hq => Json.isSome_at?_setAt? hset hq⟩
  · obtain ⟨r, hr⟩ := exists_replace_of_condition h c₀
    have hfinite := allFinite_of_condition h
    exact ⟨r, _, hr, condition_replace hfinite hr, rfl, fun t ht => positiveZeros_equal (hfinite t ht)⟩

/-- A document of two parts under a key with a slash; the condition is in the first, under a tilde. -/
def escapedDocument : Json :=
  .object [("a/b", .array [.object [("note", .null), ("~", .object [("expr", .string "number"),
    ("value", .double (.signedZero true))])], .int 7])]

/-- Through an escaped pointer a negative zero is read, and after it was written it is read as zero. The number beside
the part with the condition stays, and where there is no third part neither reading nor writing finds one. -/
theorem escaped_pointer_is_a_lens :
    (Document.new escapedDocument (some "/a~1b/0/~0")).condition = .ok (some (number (.signedZero true))) ∧
    (∃ r, (Document.new escapedDocument (some "/a~1b/0/~0")).replace (some (number (.signedZero true))) = .ok r ∧
      (Document.new r (some "/a~1b/0/~0")).condition = .ok (some (number .zero)) ∧
      r.at? ["a/b", "1"] = some (.int 7) ∧
      (Document.new r (some "/a~1b/0/~0")).replace none =
        (Document.new escapedDocument (some "/a~1b/0/~0")).replace none) ∧
    ¬ ["a/b", "1"] <+: ["a/b", "0", "~"] ∧ ¬ ["a/b", "0", "~"] <+: ["a/b", "1"] ∧
    (∀ t ∈ some (number (.signedZero true)), t.AllFinite) ∧
    (Document.new escapedDocument (some "/a~1b/2")).condition = .error (.pointerNotFound "/a~1b/2") ∧
    (Document.new escapedDocument (some "/a~1b/2")).replace none = .error (.pointerNotFound "/a~1b/2") := by
  have hread : (Document.new escapedDocument (some "/a~1b/0/~0")).condition = .ok (some (number (.signedZero true))) :=
    rfl
  have hmissing : (Document.new escapedDocument (some "/a~1b/2")).condition = .error (.pointerNotFound "/a~1b/2") := rfl
  have hapart : ¬ ["a/b", "1"] <+: ["a/b", "0", "~"] := by decide
  have hapart' : ¬ ["a/b", "0", "~"] <+: ["a/b", "1"] := by decide
  have hfinite : ∀ t ∈ some (number (.signedZero true)), t.AllFinite := by
    rintro t ⟨⟩
    rfl
  obtain ⟨-, -, hsucceeds, hlens, -⟩ := document_is_a_lens escapedDocument (some "/a~1b/0/~0")
  obtain ⟨hsame, -⟩ := document_is_a_lens escapedDocument (some "/a~1b/2")
  obtain ⟨r, hr⟩ := hsucceeds (some (number (.signedZero true))) _ hread
  obtain ⟨hback, ⟨ts, hts, -, hframe, -⟩, hlast⟩ := hlens _ r hr
  cases hts
  exact ⟨hread, ⟨r, hr, hback hfinite, hframe _ hapart hapart', hlast none⟩, hapart, hapart', hfinite, hmissing,
    (hsame none _).mp hmissing⟩

end ConditionTree
