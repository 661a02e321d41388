import ConditionTree.Number.Decimal
import ConditionTree.Proofs.Rounding

/-!
# Decimals that read back

What a decimal is read as depends on its value only, not on how many of its digits are zeros at the end
(`toDouble_mul_pow`). A double is read back from the decimal of all its digits, since rounding is exact there, and so it
is from the shortest one, which is taken from those that read back (`toDouble_shortest`).
-/

namespace ConditionTree

namespace Double

variable {n d k : Nat}

/-! ### Fractions in other terms -/

theorem roundHalfEven_mul_mul (n d : Nat) (hk : 0 < k) : roundHalfEven (n * k) (d * k) = roundHalfEven n d := by
  have hrest : 2 * (n % d * k) = 2 * (n % d) * k := (Nat.mul_assoc ..).symm
  unfold roundHalfEven
  simp only [Nat.mul_div_mul_right _ _ hk, Nat.mul_mod_mul_right, hrest, Nat.mul_lt_mul_right hk,
    Nat.mul_left_inj (Nat.ne_of_gt hk)]

theorem nearest_mul_mul (n d : Nat) (hk : 0 < k) : nearest (n * k) (d * k) = nearest n d := by
  have hscaled : (n * k) <<< 1074 = n <<< 1074 * k := by
    rw [Nat.shiftLeft_eq, Nat.shiftLeft_eq, Nat.mul_right_comm]
  have hcut : ∀ shift, (d * k) <<< shift = d <<< shift * k := fun shift => by
    rw [Nat.shiftLeft_eq, Nat.shiftLeft_eq, Nat.mul_right_comm]
  simp only [nearest, hscaled, Nat.mul_div_mul_right _ _ hk, hcut, roundHalfEven_mul_mul _ _ hk]

theorem ofFraction_mul_mul (negative : Bool) (n d : Nat) (hk : 0 < k) :
    ofFraction negative (n * k) (d * k) = ofFraction negative n d := by
  unfold ofFraction
  simp only [nearest_mul_mul n d hk]

end Double

open Double

namespace Decimal

variable {m j : Nat} {e : Int}

theorem length_toDigits_mul_pow (hm : 0 < m) (j : Nat) :
    (Nat.toDigits 10 (m * 10 ^ j)).length = (Nat.toDigits 10 m).length + j := by
  induction j with
  | zero => simp
  | succ j ih =>
    have hpos : 0 < m * 10 ^ j := Nat.mul_pos hm (Nat.pow_pos (by decide))
    have happend := Nat.toDigits_append_toDigits (b := 10) (d := 0) (by decide) hpos (by decide)
    rw [Nat.pow_succ, ← Nat.mul_assoc, Nat.mul_comm _ 10, ← Nat.add_zero (10 * _), ← happend, List.length_append, ih,
      Nat.toDigits_zero, List.length_singleton, Nat.add_assoc]

/-- **Zeros at the end of the digits count for as much as the exponent.** -/
theorem toDouble_mul_pow (negative : Bool) (m j : Nat) (e : Int) :
    toDouble negative ⟨m * 10 ^ j, e⟩ = toDouble negative ⟨m, e + j⟩ := by
  rcases Nat.eq_zero_or_pos m with rfl | hm
  · rw [Nat.zero_mul, toDouble, toDouble, if_pos rfl, if_pos rfl]
  have hpos : 0 < m * 10 ^ j := Nat.mul_pos hm (Nat.pow_pos (by decide))
  have hpoint : point ⟨m * 10 ^ j, e⟩ = point ⟨m, e + j⟩ := by
    simp only [point, length_toDigits_mul_pow hm]
    omega
  unfold toDouble
  rw [hpoint, if_neg (Nat.ne_of_gt hpos), if_neg (Nat.ne_of_gt hm)]
  dsimp only
  split_ifs with hlarge hsmall he hej hej
  · rfl
  · rfl
  · -- no fraction on either side
    have hexp : (e + j).toNat = j + e.toNat := by omega
    exact congrArg (ofFraction negative · 1) (by rw [hexp, Nat.pow_eq, Nat.pow_eq, Nat.mul_assoc, ← Nat.pow_add])
  · omega
  · -- the zeros make up for the whole denominator
    have hexp : j = (e + j).toNat + (-e).toNat := by omega
    have hten : 0 < 10 ^ (-e).toNat := Nat.pow_pos (by decide)
    calc ofFraction negative (m * 10 ^ j) (Nat.pow 10 (-e).toNat)
        = ofFraction negative (m * 10 ^ (e + j).toNat * 10 ^ (-e).toNat) (1 * 10 ^ (-e).toNat) := by
          rw [Nat.mul_assoc, ← Nat.pow_add, ← hexp, Nat.one_mul, Nat.pow_eq]
      _ = ofFraction negative (m * 10 ^ (e + j).toNat) 1 := ofFraction_mul_mul negative _ _ hten
  · have hexp : (-e).toNat = (-(e + j)).toNat + j := by omega
    have hten : 0 < 10 ^ j := Nat.pow_pos (by decide)
    calc ofFraction negative (m * 10 ^ j) (Nat.pow 10 (-e).toNat)
        = ofFraction negative (m * 10 ^ j) (10 ^ (-(e + j)).toNat * 10 ^ j) := by rw [Nat.pow_eq, hexp, Nat.pow_add]
      _ = ofFraction negative m (10 ^ (-(e + j)).toNat) := ofFraction_mul_mul negative _ _ hten

theorem toDouble_strip (negative : Bool) (d : Decimal) : d.strip.toDouble negative = d.toDouble negative := by
  fun_induction strip d with
  | case1 d h ih =>
    have hdigits : d.digits / 10 * 10 ^ 1 = d.digits := by omega
    have hmul := toDouble_mul_pow negative (d.digits / 10) 1 d.exponent
    rw [hdigits] at hmul
    exact ih.trans hmul.symm
  | case2 => rfl

/-- The sign takes no part in reading. -/
theorem toDouble_of_toDouble {d : Decimal} {m : Fin 0x7FF0000000000000} (negative : Bool)
    (h : d.toDouble false = finite false m) : d.toDouble negative = finite negative m := by
  unfold toDouble ofFraction signedZero at h ⊢
  split_ifs at h ⊢ with hzero hlarge hsmall he hlt <;> cases h <;> rfl

end Decimal

namespace Double

/-! ### The decimal of all digits -/

variable {m : Nat}

theorem scale_le (h : m < 0x7FF0000000000000) : scale m ≤ 2045 := by
  unfold scale leadingBit
  omega

theorem length_toDigits_le {n k : Nat} (hk : 0 < k) (h : n < 10 ^ k) : (Nat.toDigits 10 n).length ≤ k :=
  (Nat.length_toDigits_le_iff (by decide) hk).mpr h

theorem lt_length_toDigits {n k : Nat} (hk : 0 < k) (h : 10 ^ k ≤ n) : k < (Nat.toDigits 10 n).length := by
  by_contra hlen
  exact absurd ((Nat.length_toDigits_le_iff (by decide) hk).mp (Nat.le_of_not_lt hlen)) (Nat.not_lt.mpr h)

theorem ten_pow_le {c k : Nat} (h : 2 ^ k ≤ 5 ^ c) : 10 ^ k ≤ 5 ^ (c + k) := by
  calc 10 ^ k = 2 ^ k * 5 ^ k := by rw [← Nat.mul_pow]
    _ ≤ 5 ^ c * 5 ^ k := Nat.mul_le_mul_right _ h
    _ = 5 ^ (c + k) := (Nat.pow_add 5 c k).symm

/-- Few enough digits stand before the point of a finite number, and few enough zeros follow it. -/
theorem point_exactDecimal (hm : 0 < m) (h : m < 0x7FF0000000000000) :
    -330 ≤ (exactDecimal m).point ∧ (exactDecimal m).point ≤ 310 := by
  have hscale := scale_le h
  have hlow := significand_pos hm
  have hhigh : significand m ≤ 2 ^ 53 := Nat.le_of_lt (significand_lt m)
  have htwo : ∀ {a b : Nat}, a ≤ b → 2 ^ a ≤ 2 ^ b := fun hab => Nat.pow_le_pow_right (by decide) hab
  unfold exactDecimal Decimal.point
  split_ifs with hlarge
  · -- a whole number below `2 ^ 1024`
    have hpow : 2 ^ (scale m - 1074) ≤ 2 ^ 971 := htwo (by omega)
    have hten : 2 ^ 53 * 2 ^ 971 < 10 ^ 309 := by decide +kernel
    have hlt : significand m <<< (scale m - 1074) < 10 ^ 309 := by
      rw [Nat.shiftLeft_eq]
      exact Nat.lt_of_le_of_lt (Nat.mul_le_mul hhigh hpow) hten
    have hlen := length_toDigits_le (by decide) hlt
    have hpos := Nat.length_toDigits_pos (b := 10) (n := significand m <<< (scale m - 1074))
    dsimp only
    omega
  · generalize hhalvings : 1074 - scale m = halvings
    have hdigits : significand m * Nat.pow 5 halvings < 10 ^ (16 + halvings) := by
      have hten : 2 ^ 53 < 10 ^ 16 := by decide
      have hfive : 5 ^ halvings ≤ 10 ^ halvings := Nat.pow_le_pow_left (by decide) halvings
      rw [Nat.pow_eq, Nat.pow_add]
      calc significand m * 5 ^ halvings ≤ 2 ^ 53 * 10 ^ halvings := Nat.mul_le_mul hhigh hfive
        _ < 10 ^ 16 * 10 ^ halvings := Nat.mul_lt_mul_of_pos_right hten (Nat.pow_pos (by decide))
    have hlen := length_toDigits_le (by omega) hdigits
    have hpos := Nat.length_toDigits_pos (b := 10) (n := significand m * Nat.pow 5 halvings)
    dsimp only
    refine ⟨?_, by omega⟩
    by_cases hfew : halvings ≤ 331
    · omega
    · -- of the powers of five enough are left once tens are made of them
      obtain ⟨k, hk⟩ : ∃ k, halvings = 331 + k := ⟨halvings - 331, by omega⟩
      have hpow : 2 ^ k ≤ 2 ^ 743 := htwo (by omega)
      have hfive : 2 ^ 743 ≤ 5 ^ 331 := by decide +kernel
      have hten : 10 ^ k ≤ significand m * Nat.pow 5 halvings := by
        rw [hk, Nat.pow_eq]
        exact Nat.le_trans (ten_pow_le (Nat.le_trans hpow hfive)) (Nat.le_mul_of_pos_left _ hlow)
      have hlen' := lt_length_toDigits (by omega) hten
      omega

/-- A half is five tenths. -/
theorem significand_mul_five (m halvings : Nat) :
    significand m * 5 ^ halvings * 2 ^ (scale m + halvings) = units m * 10 ^ halvings := by
  have hten : 10 ^ halvings = 2 ^ halvings * 5 ^ halvings := by rw [← Nat.mul_pow]
  rw [units_eq_mul, hten, Nat.pow_add]
  generalize 2 ^ scale m = doubled, 2 ^ halvings = twos, 5 ^ halvings = fives
  ac_rfl

/-- **A double is read back from all its digits.** -/
theorem toDouble_exactDecimal (m : Fin 0x7FF0000000000000) : (exactDecimal m).toDouble false = finite false m := by
  by_cases hm : m.val = 0
  · have hzero : m = 0 := Fin.ext hm
    have hdigits : (exactDecimal m).digits = 0 := by
      rw [hm, exactDecimal, if_neg (by decide)]
      dsimp only
      rw [show significand 0 = 0 from rfl, Nat.zero_mul]
    rw [Decimal.toDouble, if_pos hdigits, hzero]
    rfl
  · have hpos : 0 < m.val := Nat.pos_of_ne_zero hm
    have hsignificand := significand_pos hpos
    obtain ⟨hlow, hhigh⟩ := point_exactDecimal hpos m.isLt
    by_cases hlarge : 1074 ≤ scale m
    · have hexact : exactDecimal m = ⟨significand m <<< (scale m - 1074), 0⟩ := if_pos hlarge
      have hdigits : significand m <<< (scale m - 1074) ≠ 0 := by
        rw [Nat.shiftLeft_eq]
        exact Nat.ne_of_gt (Nat.mul_pos hsignificand (Nat.two_pow_pos _))
      have hunits : (significand m <<< (scale m - 1074)) <<< 1074 = units m * 1 := by
        rw [← Nat.shiftLeft_add, Nat.sub_add_cancel hlarge, Nat.mul_one]
        rfl
      rw [hexact] at hlow hhigh ⊢
      rw [Decimal.toDouble, if_neg hdigits, if_neg (Int.not_lt.mpr hhigh), if_neg (Int.not_lt.mpr hlow),
        if_pos (Int.le_refl 0)]
      dsimp only
      rw [Int.toNat_zero, Nat.pow_eq, Nat.pow_zero, Nat.mul_one]
      exact ofFraction_of_units false Nat.one_pos hunits
    · have hexact : exactDecimal m =
          ⟨significand m * Nat.pow 5 (1074 - scale m), -((1074 - scale m : Nat) : Int)⟩ := if_neg hlarge
      obtain ⟨halvings, hhalvings⟩ : ∃ halvings, scale m + halvings = 1074 := ⟨1074 - scale m, by omega⟩
      have hsub : 1074 - scale m = halvings := by omega
      have hdigits : significand m * Nat.pow 5 halvings ≠ 0 :=
        Nat.ne_of_gt (Nat.mul_pos hsignificand (Nat.pow_pos (by decide)))
      have hunits : (significand m * 5 ^ halvings) <<< 1074 = units m * 10 ^ halvings := by
        rw [Nat.shiftLeft_eq, ← hhalvings]
        exact significand_mul_five m halvings
      rw [hexact, hsub] at hlow hhigh ⊢
      rw [Decimal.toDouble, if_neg hdigits, if_neg (Int.not_lt.mpr hhigh), if_neg (Int.not_lt.mpr hlow),
        if_neg (by dsimp only; omega)]
      dsimp only
      rw [Int.neg_neg, Int.toNat_natCast, Nat.pow_eq, Nat.pow_eq]
      exact ofFraction_of_units false (Nat.pow_pos (by decide)) hunits

/-- **A double is read back from the decimal of fewest digits.** -/
theorem toDouble_shortest (tie : Tie) (negative : Bool) (m : Fin 0x7FF0000000000000) :
    (shortest tie m).toDouble negative = finite negative m := by
  refine Decimal.toDouble_of_toDouble negative ?_
  rw [shortest, Decimal.toDouble_strip]
  cases hfound : (List.range (Nat.toDigits 10 (exactDecimal m).digits).length).findSome? fun kept =>
    (neighbours tie (exactDecimal m) ((Nat.toDigits 10 (exactDecimal m).digits).length - (kept + 1))).find? fun d =>
      d.toDouble false = finite false m with
  | none => exact toDouble_exactDecimal m
  | some d =>
    obtain ⟨_, kept, _, -, hd, -⟩ := List.findSome?_eq_some_iff.mp hfound
    have hback := List.find?_some hd
    exact of_decide_eq_true hback

end Double

end ConditionTree
