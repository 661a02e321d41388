import ConditionTree.Json.Pointer
import Mathlib.Data.List.Induction
import Mathlib.Tactic.IntervalCases

/-!
# Reading and writing at a pointer

One token names one value right below another (`below?`), and `putBelow` puts a new value there. A token is the only one
for its place, since an index is written in one way only (`index?_injective`), so a value that is put at one token
leaves those at all others alone. The laws of `at?` and `setAt?` follow along the tokens: something can be replaced
exactly where something is found (`isSome_setAt?`), what is put in is found (`at?_setAt?_append`), what is apart from it
stays (`at?_setAt?_apart`), and nothing else comes or goes.
-/

namespace ConditionTree.Json

variable {v u w new root r : Json} {token token' : String} {ts q : List String}

/-! ### Indexes -/

theorem exists_digit {c : Char} (h : c.isDigit) : ∃ n < 10, c = n.digitChar := by
  have hbounds : 48 ≤ c.toNat ∧ c.toNat ≤ 57 := by
    simp only [Char.isDigit, Bool.and_eq_true, decide_eq_true_eq] at h
    exact ⟨UInt32.le_iff_toNat_le.mp h.1, UInt32.le_iff_toNat_le.mp h.2⟩
  have hc : c = Char.ofNat c.toNat := (Char.ofNat_toNat c).symm
  obtain ⟨hlow, hhigh⟩ := hbounds
  generalize c.toNat = n at hc hlow hhigh
  refine ⟨n - 48, by omega, ?_⟩
  rw [hc]
  interval_cases n <;> rfl

/-- Digits without a zero in front are the ones that their number is written by. -/
theorem toDigits_ofDigitChars {cs : List Char} (hd : ∀ c ∈ cs, c.isDigit) (hne : cs ≠ [])
    (hzero : cs.head? ≠ some '0') :
    0 < Nat.ofDigitChars 10 cs 0 ∧ Nat.toDigits 10 (Nat.ofDigitChars 10 cs 0) = cs := by
  induction cs using List.reverseRecOn with
  | nil => exact absurd rfl hne
  | append_singleton cs c ih =>
    obtain ⟨n, hn, rfl⟩ := exists_digit (hd c (by simp))
    rw [Nat.ofDigitChars_append, Nat.ofDigitChars_cons_digitChar_of_lt_ten hn, Nat.ofDigitChars_nil]
    by_cases hcs : cs = []
    · subst hcs
      have hpos : n ≠ 0 := by
        rintro rfl
        exact hzero rfl
      rw [Nat.ofDigitChars_nil]
      exact ⟨by omega, by simpa using Nat.toDigits_of_lt_base hn⟩
    · have hhead : cs.head? ≠ some '0' := by
        rwa [List.head?_append, Option.or_of_isSome (by simpa using hcs)] at hzero
      obtain ⟨hpos, hdigits⟩ := ih (fun c hc => hd c (by simp [hc])) hcs hhead
      have happend := Nat.toDigits_append_toDigits (b := 10) (by decide) hpos hn
      rw [hdigits, Nat.toDigits_of_lt_base hn] at happend
      exact ⟨by omega, happend.symm⟩

/-- An index is written by its digits and in no other way. -/
theorem toList_of_index? {i : Nat} (h : index? token = some i) : token.toList = Nat.toDigits 10 i := by
  unfold index? at h
  split at h
  · cases h
  · rename_i hzero
    cases h
    rw [hzero]
    rfl
  · cases h
  · rename_i cs hempty hzero hfront
    split_ifs at h with hall
    cases h
    have hdigits : ∀ c ∈ token.toList, c.isDigit := List.all_eq_true.mp hall
    have hhead : token.toList.head? ≠ some '0' := by
      intro hhead
      obtain ⟨rest, hrest⟩ := List.head?_eq_some_iff.mp hhead
      exact hfront rest hrest
    exact (toDigits_ofDigitChars hdigits hempty hhead).2.symm

theorem index?_injective {i : Nat} (h : index? token = some i) (h' : index? token' = some i) : token = token' :=
  String.ext ((toList_of_index? h).trans (toList_of_index? h').symm)

/-! ### One token -/

/-- The value right below another. -/
def below? (token : String) : Json → Option Json
  | object members => members.lookup token
  | array items => (index? token).bind fun i => items[i]?
  | _ => none

/-- The value with the one right below replaced. -/
def putBelow (token : String) : Json → Json → Json
  | object members, new => object (replaceMember token new members)
  | array items, new => array (((index? token).map fun i => items.set i new).getD items)
  | v, _ => v

theorem at?_nil (v : Json) : v.at? [] = some v := by
  cases v <;> rfl

theorem at?_cons (v : Json) (token : String) (ts : List String) :
    v.at? (token :: ts) = (v.below? token).bind (·.at? ts) := by
  cases v with
  | array items =>
    simp only [at?, below?, Option.bind_assoc]
  | _ => rfl

theorem setAt?_nil (new v : Json) : setAt? new v [] = some new := by
  cases v <;> rfl

theorem setAt?_cons (new v : Json) (token : String) (ts : List String) :
    setAt? new v (token :: ts) = (v.below? token).bind fun u => (setAt? new u ts).map (v.putBelow token) := by
  cases v with
  | object members =>
    rw [setAt?, below?]
    cases members.lookup token with
    | none => rfl
    | some u => cases hs : setAt? new u ts <;> simp [hs, putBelow]
  | array items =>
    rw [setAt?, below?]
    cases hi : index? token with
    | none => rfl
    | some i =>
      cases hu : items[i]? with
      | none => simp [hu]
      | some u => cases hs : setAt? new u ts <;> simp [hu, hs, putBelow, hi]
  | _ => rfl

theorem lookup_replaceMember_self : ∀ {members : List (String × Json)}, (members.lookup token).isSome →
    (replaceMember token new members).lookup token = some new
  | [], h => by simp at h
  | (k, v) :: rest, h => by
    rw [replaceMember]
    by_cases hk : token = k
    · simp [hk]
    · have hne : (token == k) = false := by simpa using hk
      rw [List.lookup_cons, hne] at h
      rw [if_neg hk, List.lookup_cons, hne]
      exact lookup_replaceMember_self h

theorem lookup_replaceMember_ne (h : token' ≠ token) : ∀ members : List (String × Json),
    (replaceMember token new members).lookup token' = members.lookup token'
  | [] => rfl
  | (k, v) :: rest => by
    rw [replaceMember]
    by_cases hk : token = k
    · subst hk
      have hne : (token' == token) = false := by simpa using h
      rw [if_pos rfl, List.lookup_cons, List.lookup_cons, hne]
    · rw [if_neg hk, List.lookup_cons, List.lookup_cons, lookup_replaceMember_ne h rest]

theorem replaceMember_replaceMember (u w : Json) : ∀ members : List (String × Json),
    replaceMember token w (replaceMember token u members) = replaceMember token w members
  | [] => rfl
  | (k, v) :: rest => by
    by_cases hk : token = k
    · simp [replaceMember, hk]
    · simp [replaceMember, hk, replaceMember_replaceMember u w rest]

theorem below?_putBelow_self (h : (v.below? token).isSome) : (v.putBelow token new).below? token = some new := by
  cases v with
  | object members => exact lookup_replaceMember_self h
  | array items =>
    simp only [below?] at h
    cases hi : index? token with
    | none => simp [hi] at h
    | some i =>
      have hlt : i < items.length := by simpa [hi] using h
      simp [putBelow, below?, hi, hlt]
  | _ => cases h

theorem below?_putBelow_ne (h : token' ≠ token) : (v.putBelow token new).below? token' = v.below? token' := by
  cases v with
  | object members => exact lookup_replaceMember_ne h members
  | array items =>
    simp only [below?, putBelow]
    cases hi : index? token with
    | none => rfl
    | some i =>
      cases hj : index? token' with
      | none => rfl
      | some j =>
        have hij : i ≠ j := by
          rintro rfl
          exact h (index?_injective hj hi)
        simp [hij]
  | _ => rfl

theorem putBelow_putBelow (u w : Json) : (v.putBelow token u).putBelow token w = v.putBelow token w := by
  cases v with
  | object members => exact congrArg object (replaceMember_replaceMember u w members)
  | array items =>
    simp only [putBelow]
    cases index? token with
    | none => rfl
    | some i => simp
  | _ => rfl

/-! ### Along the tokens -/

theorem setAt?_cons_eq_some (h : setAt? new root (token :: ts) = some r) :
    ∃ u s, root.below? token = some u ∧ setAt? new u ts = some s ∧ r = root.putBelow token s := by
  rw [setAt?_cons] at h
  obtain ⟨u, hu, h⟩ := Option.bind_eq_some_iff.mp h
  obtain ⟨s, hs, hr⟩ := Option.map_eq_some_iff.mp h
  exact ⟨u, s, hu, hs, hr.symm⟩

/-- **Something can be replaced exactly where something is found.** -/
theorem isSome_setAt? (new : Json) : ∀ (ts : List String) (root : Json),
    (setAt? new root ts).isSome = (root.at? ts).isSome
  | [], root => by rw [setAt?_nil, at?_nil]; rfl
  | token :: ts, root => by
    rw [setAt?_cons, at?_cons]
    cases root.below? token with
    | none => rfl
    | some u => rw [Option.bind_some, Option.bind_some, Option.isSome_map, isSome_setAt? new ts u]

/-- What is put in is found, with all that it holds. -/
theorem at?_setAt?_append (q : List String) : ∀ {ts : List String} {root r : Json}, setAt? new root ts = some r →
    r.at? (ts ++ q) = new.at? q
  | [], root, r, h => by
    rw [setAt?_nil] at h
    cases h
    rfl
  | token :: ts, root, r, h => by
    obtain ⟨u, s, hu, hs, rfl⟩ := setAt?_cons_eq_some h
    have hfound : (root.putBelow token s).below? token = some s := below?_putBelow_self (by rw [hu]; rfl)
    rw [List.cons_append, at?_cons, hfound, Option.bind_some, at?_setAt?_append q hs]

/-- **What is apart from the place stays as it is.** -/
theorem at?_setAt?_apart : ∀ {ts q : List String} {root r : Json}, setAt? new root ts = some r →
    ¬ q <+: ts → ¬ ts <+: q → r.at? q = root.at? q
  | [], q, _, _, _, _, hq => absurd (List.nil_prefix) hq
  | _ :: _, [], _, _, _, hq, _ => absurd (List.nil_prefix) hq
  | token :: ts, token' :: q, root, r, h, hq, hq' => by
    obtain ⟨u, s, hu, hs, rfl⟩ := setAt?_cons_eq_some h
    rw [at?_cons, at?_cons]
    by_cases htoken : token' = token
    · subst htoken
      have hfound : (root.putBelow token' s).below? token' = some s := below?_putBelow_self (by rw [hu]; rfl)
      rw [hfound, hu]
      refine at?_setAt?_apart hs (fun hprefix => hq ?_) fun hprefix => hq' ?_
      · exact List.cons_prefix_cons.mpr ⟨rfl, hprefix⟩
      · exact List.cons_prefix_cons.mpr ⟨rfl, hprefix⟩
    · rw [below?_putBelow_ne htoken]

/-- Nothing comes or goes but at the place and below it. -/
theorem isSome_at?_setAt? : ∀ {ts q : List String} {root r : Json}, setAt? new root ts = some r → ¬ ts <+: q →
    (r.at? q).isSome = (root.at? q).isSome
  | [], q, _, _, _, hq => absurd (List.nil_prefix) hq
  | _ :: _, [], root, r, _, _ => by rw [at?_nil, at?_nil]; rfl
  | token :: ts, token' :: q, root, r, h, hq => by
    obtain ⟨u, s, hu, hs, rfl⟩ := setAt?_cons_eq_some h
    rw [at?_cons, at?_cons]
    by_cases htoken : token' = token
    · subst htoken
      have hfound : (root.putBelow token' s).below? token' = some s := below?_putBelow_self (by rw [hu]; rfl)
      rw [hfound, hu]
      exact isSome_at?_setAt? hs fun hprefix => hq (List.cons_prefix_cons.mpr ⟨rfl, hprefix⟩)
    · rw [below?_putBelow_ne htoken]

/-- **The second of two values put in is all that counts.** -/
theorem setAt?_setAt? (u w : Json) : ∀ {ts : List String} {root r : Json}, setAt? u root ts = some r →
    setAt? w r ts = setAt? w root ts
  | [], root, r, _ => by rw [setAt?_nil, setAt?_nil]
  | token :: ts, root, r, h => by
    obtain ⟨old, s, hold, hs, rfl⟩ := setAt?_cons_eq_some h
    have hfound : (root.putBelow token s).below? token = some s := below?_putBelow_self (by rw [hold]; rfl)
    have hput : (root.putBelow token s).putBelow token = root.putBelow token := by
      funext x
      exact putBelow_putBelow s x
    rw [setAt?_cons, setAt?_cons, hfound, hold, Option.bind_some, Option.bind_some, setAt?_setAt? u w hs, hput]

end ConditionTree.Json
