import ConditionTree.Number.Double
import Mathlib.Algebra.Group.Nat.Defs
import Mathlib.Tactic.Common

/-!
# Exact doubles

A fraction whose value is that of a magnitude is rounded to this magnitude (`nearest_of_units`), so rounding loses
nothing that a double can hold. In particular a double that is a whole number is found again from it, up to the sign
of zero (`ofInt_of_toInt?`).
-/

namespace ConditionTree.Double

variable {m n d : Nat}

/-! ### The parts of a magnitude -/

theorem significand_lt (m : Nat) : significand m < 2 * leadingBit := by
  unfold significand leadingBit
  split_ifs with h <;> omega

theorem leadingBit_le_significand (h : leadingBit ≤ m) : leadingBit ≤ significand m := by
  unfold significand leadingBit at *
  split_ifs <;> omega

theorem significand_add_scale (m : Nat) : significand m + scale m * leadingBit = m := by
  unfold significand scale leadingBit
  split_ifs with h <;> omega

theorem units_eq_mul (m : Nat) : units m = significand m * 2 ^ scale m :=
  Nat.shiftLeft_eq _ _

theorem scale_of_lt (h : m < leadingBit) : scale m = 0 := by
  simp [scale, Nat.div_eq_of_lt h]

theorem units_of_lt (h : m < leadingBit) : units m = m := by
  have hm := significand_add_scale m
  rw [scale_of_lt h] at hm
  rw [units_eq_mul, scale_of_lt h]
  omega

theorem significand_pos (h : 0 < m) : 0 < significand m := by
  unfold significand leadingBit
  split_ifs <;> omega

theorem units_pos (h : 0 < m) : 0 < units m := by
  rw [units_eq_mul]
  exact Nat.mul_pos (significand_pos h) (Nat.two_pow_pos _)

theorem units_eq_zero_iff : units m = 0 ↔ m = 0 := by
  constructor
  · intro h
    by_contra hm
    have hpos := units_pos (Nat.pos_of_ne_zero hm)
    omega
  · rintro rfl
    rfl

/-- How many bits a number needs tells how often its significand was doubled. -/
theorem log2_units_sub (m : Nat) : (units m).log2 - 52 = scale m := by
  by_cases hm : m < leadingBit
  · rw [units_of_lt hm, scale_of_lt hm]
    rcases Nat.eq_zero_or_pos m with rfl | hpos
    · rfl
    · have hlog : m.log2 < 52 := (Nat.log2_lt (by omega)).mpr (by simpa [leadingBit] using hm)
      omega
  · have hlow := leadingBit_le_significand (Nat.le_of_not_lt hm)
    have hhigh := significand_lt m
    have hlog : (units m).log2 = 52 + scale m := by
      have hpos : 0 < leadingBit := by decide
      have hne : units m ≠ 0 := Nat.ne_of_gt (units_pos (by omega))
      refine (Nat.log2_eq_iff hne).mpr ⟨?_, ?_⟩
      · rw [units_eq_mul, Nat.pow_add]
        exact Nat.mul_le_mul_right _ hlow
      · rw [units_eq_mul, show 52 + scale m + 1 = 53 + scale m by omega, Nat.pow_add]
        exact Nat.mul_lt_mul_of_pos_right hhigh (Nat.two_pow_pos _)
    omega

/-! ### Rounding what a double holds -/

/-- **Rounding is exact on what a double holds.** -/
theorem nearest_of_units (hd : 0 < d) (h : n <<< 1074 = units m * d) : nearest n d = m := by
  have hdiv : units m * d / d = units m := Nat.mul_div_cancel _ hd
  have hexact : units m * d = significand m * (d <<< scale m) := by
    rw [units_eq_mul, Nat.shiftLeft_eq, Nat.mul_assoc, Nat.mul_comm (2 ^ scale m)]
  have hpos : 0 < d <<< scale m := by
    rw [Nat.shiftLeft_eq]
    exact Nat.mul_pos hd (Nat.two_pow_pos _)
  calc nearest n d = roundHalfEven (units m * d) (d <<< scale m) + scale m * leadingBit := by
        simp only [nearest, h, hdiv, log2_units_sub]
    _ = significand m + scale m * leadingBit := by rw [hexact, roundHalfEven_mul _ hpos]
    _ = m := significand_add_scale m

theorem ofFraction_of_units {m : Fin 0x7FF0000000000000} (negative : Bool) (hd : 0 < d)
    (h : n <<< 1074 = units m * d) : ofFraction negative n d = finite negative m := by
  have hn := nearest_of_units hd h
  have hlt : nearest n d < 0x7FF0000000000000 := by
    rw [hn]
    exact m.isLt
  rw [ofFraction, dif_pos hlt]
  exact congrArg (finite negative) (Fin.ext hn)

/-- The number without the sign of a zero. -/
def positiveZero : Double → Double
  | finite negative m => finite (negative && m.val != 0) m
  | x => x

@[simp] theorem isFinite_positiveZero (x : Double) : x.positiveZero.isFinite = x.isFinite := by
  cases x <;> rfl

theorem positiveZero_equal {x : Double} (h : x.isFinite) : x.positiveZero.equal x := by
  cases x with
  | finite negative m => cases negative <;> cases hm : m.val == 0 <;> simp_all [positiveZero, equal]
  | infinite => cases h
  | nan => cases h

/-- Only a zero has a sign to lose. -/
theorem positiveZero_of_toInt?_ne {x : Double} (h : x.toInt? ≠ some 0) : x.positiveZero = x := by
  cases x with
  | finite negative m =>
    have hm : m.val ≠ 0 := by
      intro hm
      simp [toInt?, hm] at h
    simp [positiveZero, hm]
  | infinite | nan => rfl

/-- The whole number that a double is, from its units. -/
theorem toInt?_finite {negative : Bool} {m : Fin 0x7FF0000000000000} {i : Int}
    (h : (finite negative m).toInt? = some i) :
    ∃ n : Nat, n <<< 1074 = units m ∧ i = if negative then -(n : Int) else (n : Int) := by
  unfold toInt? at h
  have hshift : ∀ n : Nat, n <<< 1074 = n * 1 <<< 1074 := fun n => by
    rw [Nat.shiftLeft_eq, Nat.one_shiftLeft]
  -- a variable for the power, or every step below would compute it
  generalize (1 <<< 1074 : Nat) = one at h hshift
  by_cases hdvd : units m % one = 0
  · simp only [hdvd, if_true, Option.some.injEq] at h
    refine ⟨units m / one, ?_, h.symm⟩
    rw [hshift]
    exact Nat.div_mul_cancel (Nat.dvd_of_mod_eq_zero hdvd)
  · simp [hdvd] at h

/-- **A whole number gives back the double that it is the value of.** -/
theorem ofInt_of_toInt? {x : Double} {i : Int} (h : x.toInt? = some i) : ofInt i = x.positiveZero := by
  cases x with
  | infinite | nan => cases h
  | finite negative m =>
    obtain ⟨n, hn, hi⟩ := toInt?_finite h
    have habs : i.natAbs = n := by
      cases negative <;> simp [hi]
    have hzero : n = 0 ↔ m.val = 0 := by
      rw [← Nat.shiftLeft_eq_zero_iff (n := 1074), hn, units_eq_zero_iff]
    have hsign : decide (i < 0) = (negative && m.val != 0) := by
      cases negative with
      | false => simp [hi]
      | true =>
        have hlt : i < 0 ↔ m.val ≠ 0 := by
          rw [Ne, ← hzero, hi, if_pos rfl]
          omega
        rw [Bool.eq_iff_iff, decide_eq_true_eq, hlt]
        simp
    rw [ofInt, habs, hsign]
    exact ofFraction_of_units _ Nat.one_pos (by rw [hn, Nat.mul_one])

end ConditionTree.Double
