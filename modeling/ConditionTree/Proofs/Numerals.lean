import ConditionTree.Condition.Infix
import ConditionTree.Json5.Reader
import ConditionTree.Proofs.Decimals
import ConditionTree.Proofs.Pointers

/-!
# Numbers in a text

The text of a number in JSON is read as the number, whatever stands after it, as long as that is no part of a number.
Its plain text is read back as well (`Condition.readDouble?_numberText`), so different numbers have different texts.
There is no control character in either.
-/

namespace ConditionTree

/-- Whether a text begins with nothing that could go on with a number. -/
def endsNumber (cs : List Char) : Bool :=
  cs.head?.all fun c => !(c.isDigit || c == '.' || c == 'e' || c == 'E' || c == 'x' || c == 'X')

/-- Whether a character may begin a number. -/
def startsNumber (c : Char) : Bool :=
  c == '-' || c.isDigit

/-- Whether a text begins with no digit. -/
def endsDigits (cs : List Char) : Bool :=
  cs.head?.all (!·.isDigit)

variable {ds tail : List Char}

theorem endsDigits_of_endsNumber (h : endsNumber tail) : endsDigits tail := by
  cases tail with
  | nil => rfl
  | cons c tail => simp_all [endsNumber, endsDigits]

theorem takeWhile_isDigit (hd : ∀ c ∈ ds, c.isDigit) (ht : endsDigits tail) :
    (ds ++ tail).takeWhile Char.isDigit = ds := by
  rw [List.takeWhile_append_of_pos hd]
  cases tail with
  | nil => simp
  | cons c tail => simp_all [endsDigits]

theorem dropWhile_isDigit (hd : ∀ c ∈ ds, c.isDigit) (ht : endsDigits tail) :
    (ds ++ tail).dropWhile Char.isDigit = tail := by
  rw [List.dropWhile_append_of_pos hd]
  cases tail with
  | nil => rfl
  | cons c tail => simp_all [endsDigits]

theorem isDigit_toDigits {n : Nat} : ∀ c ∈ Nat.toDigits 10 n, c.isDigit := fun _ hc =>
  Nat.isDigit_of_mem_toDigits (by decide) (by decide) hc

/-- No number but zero is written with a zero in front. -/
theorem head?_toDigits {n : Nat} (hn : 0 < n) : (Nat.toDigits 10 n).head? ≠ some '0' := by
  induction n using Nat.strongRecOn with
  | ind n ih =>
    by_cases hsmall : n < 10
    · rw [Nat.toDigits_of_lt_base hsmall]
      simp only [List.head?_cons, ne_eq, Option.some.injEq, Nat.digitChar_eq_zero]
      omega
    · rw [Nat.toDigits_of_base_le (by decide) (Nat.le_of_not_lt hsmall), List.head?_append,
        Option.or_of_isSome (by simp)]
      exact ih (n / 10) (by omega) (by omega)

namespace Numeral

/-! ### Written numbers -/

/-- An exponent with its mark and its sign. -/
def exponentText (e : Int) : List Char :=
  'e' :: (if e < 0 then '-' else '+') :: Nat.toDigits 10 e.natAbs

/-- A number as it is written. -/
def text (n : Numeral) : List Char :=
  n.whole ++ ((n.fraction.elim [] ('.' :: ·)) ++ n.exponent.elim [] exponentText)

/-- Digits where digits belong, and no zero in front of others. -/
structure WellFormed (n : Numeral) : Prop where
  whole : ∀ c ∈ n.whole, c.isDigit
  front : n.whole = ['0'] ∨ n.whole ≠ [] ∧ n.whole.head? ≠ some '0'
  fraction : ∀ ds ∈ n.fraction, ∀ c ∈ ds, c.isDigit

variable {n : Numeral}

theorem exists_digit_text (hn : n.WellFormed) : ∃ c cs, n.text = c :: cs ∧ c.isDigit := by
  obtain ⟨whole, fraction, exponent⟩ := n
  cases whole with
  | nil => simpa using hn.front
  | cons c ds => exact ⟨c, _, rfl, hn.whole c List.mem_cons_self⟩

theorem readExponent_exponentText (e : Int) (ht : endsNumber tail) :
    readExponent ((exponentText e).tail ++ tail) = some (e, tail) := by
  have htail := endsDigits_of_endsNumber ht
  have htake := takeWhile_isDigit (isDigit_toDigits (n := e.natAbs)) htail
  have hdrop := dropWhile_isDigit (isDigit_toDigits (n := e.natAbs)) htail
  by_cases he : e < 0
  · have habs : -(e.natAbs : Int) = e := by omega
    simp [-Nat.cast_natAbs, exponentText, he, readExponent, htake, hdrop, habs]
  · have habs : (e.natAbs : Int) = e := by omega
    simp [-Nat.cast_natAbs, exponentText, he, readExponent, htake, hdrop, habs]

/-- **A number is read as it is written.** -/
theorem read_text (hn : n.WellFormed) (ht : endsNumber tail) : read (n.text ++ tail) = some (n, tail) := by
  obtain ⟨whole, fraction, exponent⟩ := n
  obtain ⟨hwhole, hfront, hfraction⟩ := hn
  have hne : whole.isEmpty = false := by
    rcases hfront with rfl | ⟨hne, -⟩
    · rfl
    · simpa using hne
  have htail := endsDigits_of_endsNumber ht
  simp only [text, List.append_assoc]
  -- the point, or else the mark of the exponent, ends the digits before it
  cases fraction with
  | none =>
    cases exponent with
    | none =>
      simp only [Option.elim, List.nil_append]
      rw [read, takeWhile_isDigit hwhole htail, dropWhile_isDigit hwhole htail, hne]
      cases tail with
      | nil => rfl
      | cons c tail =>
        simp only [endsNumber, List.head?_cons, Option.all_some, Bool.not_eq_true', Bool.or_eq_false_iff,
          beq_eq_false_iff_ne] at ht
        simp [ht]
    | some e =>
      have hexp : endsDigits (exponentText e ++ tail) := rfl
      have hread := readExponent_exponentText e ht
      simp only [Option.elim, List.nil_append]
      rw [read, takeWhile_isDigit hwhole hexp, dropWhile_isDigit hwhole hexp, hne]
      simp only [exponentText, List.cons_append, List.tail_cons] at hread ⊢
      simp [hread]
  | some ds =>
    have hds := hfraction ds rfl
    cases exponent with
    | none =>
      have hpoint : endsDigits ('.' :: (ds ++ tail)) := rfl
      simp only [Option.elim, List.nil_append, List.cons_append]
      rw [read, takeWhile_isDigit hwhole hpoint, dropWhile_isDigit hwhole hpoint, hne]
      simp only [takeWhile_isDigit hds htail, dropWhile_isDigit hds htail]
      cases tail with
      | nil => rfl
      | cons c tail =>
        simp only [endsNumber, List.head?_cons, Option.all_some, Bool.not_eq_true', Bool.or_eq_false_iff,
          beq_eq_false_iff_ne] at ht
        simp [ht]
    | some e =>
      have hexp : endsDigits (exponentText e ++ tail) := rfl
      have hpoint : endsDigits ('.' :: (ds ++ (exponentText e ++ tail))) := rfl
      have hread := readExponent_exponentText e ht
      simp only [Option.elim, List.cons_append]
      rw [read, takeWhile_isDigit hwhole hpoint, dropWhile_isDigit hwhole hpoint, hne]
      simp only [takeWhile_isDigit hds hexp, dropWhile_isDigit hds hexp]
      simp only [exponentText, List.cons_append, List.tail_cons] at hread ⊢
      simp [hread]

end Numeral

/-! ### The text of a decimal -/

open Numeral

variable {d : Decimal} {n k : Nat}

/-- What is written for a decimal is a number of the same value. -/
structure Numeral.Writes (n : Numeral) (d : Decimal) : Prop extends n.WellFormed where
  value : ∀ negative, n.toDecimal.toDouble negative = d.toDouble negative

theorem front_append (hn : n ≠ 0) (ds : List Char) :
    Nat.toDigits 10 n ++ ds ≠ [] ∧ (Nat.toDigits 10 n ++ ds).head? ≠ some '0' := by
  refine ⟨by simp, ?_⟩
  rw [List.head?_append, Option.or_of_isSome (by simp)]
  exact head?_toDigits (Nat.pos_of_ne_zero hn)

theorem front_take (hn : n ≠ 0) (hk : 0 < k) :
    (Nat.toDigits 10 n).take k ≠ [] ∧ ((Nat.toDigits 10 n).take k).head? ≠ some '0' := by
  have hhead := head?_toDigits (Nat.pos_of_ne_zero hn)
  cases hds : Nat.toDigits 10 n with
  | nil => exact absurd hds Nat.toDigits_ne_nil
  | cons c ds =>
    obtain ⟨k, rfl⟩ := Nat.exists_eq_succ_of_ne_zero (Nat.ne_of_gt hk)
    rw [hds] at hhead
    exact ⟨by simp, hhead⟩

/-- All digits after the point, and zeros between. -/
theorem writes_after_point (h : d.point ≤ 0) :
    Writes ⟨['0'], some (List.replicate (-d.point).toNat '0' ++ Nat.toDigits 10 d.digits), none⟩ d := by
  refine ⟨⟨by simp, .inl rfl, ?_⟩, fun negative => ?_⟩
  · rintro ds ⟨⟩ c hc
    rcases List.mem_append.mp hc with hzero | hdigit
    · rw [List.eq_of_mem_replicate hzero]
      rfl
    · exact isDigit_toDigits c hdigit
  · have hvalue : Nat.ofDigitChars 10
        (List.replicate 1 '0' ++ (List.replicate (-d.point).toNat '0' ++ Nat.toDigits 10 d.digits)) 0 = d.digits := by
      simp only [Nat.ofDigitChars_append, Nat.ofDigitChars_replicate_zero, Nat.mul_zero, Nat.ofDigitChars_ten_toDigits]
    have hexp : 0 - ((List.replicate (-d.point).toNat '0' ++ Nat.toDigits 10 d.digits).length : Int) = d.exponent := by
      rw [List.length_append, List.length_replicate]
      unfold Decimal.point at h ⊢
      omega
    exact congrArg₂ (fun m e => Decimal.toDouble negative ⟨m, e⟩) hvalue hexp

/-- Some digits before the point, and an exponent if there is one. -/
theorem writes_around_point (hd : d.digits ≠ 0) (hk : 0 < k) {fraction : Option (List Char)} {mark : Option Int}
    (hfraction : fraction.getD [] = (Nat.toDigits 10 d.digits).drop k) (hlen : k ≤ (Nat.toDigits 10 d.digits).length)
    (hmark : mark.getD 0 + k = d.point) : Writes ⟨(Nat.toDigits 10 d.digits).take k, fraction, mark⟩ d := by
  refine ⟨⟨fun c hc => isDigit_toDigits c (List.mem_of_mem_take hc), .inr (front_take hd hk), ?_⟩,
    fun negative => ?_⟩
  · rintro ds ⟨⟩ c hc
    have hds : ds = (Nat.toDigits 10 d.digits).drop k := hfraction
    rw [hds] at hc
    exact isDigit_toDigits c (List.mem_of_mem_drop hc)
  · have hvalue : Nat.ofDigitChars 10 ((Nat.toDigits 10 d.digits).take k ++ fraction.getD []) 0 = d.digits := by
      rw [hfraction, List.take_append_drop, Nat.ofDigitChars_ten_toDigits]
    have hexp : mark.getD 0 - ((fraction.getD []).length : Int) = d.exponent := by
      rw [hfraction, List.length_drop]
      unfold Decimal.point at hmark
      omega
    exact congrArg₂ (fun m e => Decimal.toDouble negative ⟨m, e⟩) hvalue hexp

/-- Digits and zeros after them make a number, whatever stands after the point. -/
theorem wellFormed_zeros (h : n = 0 → k = 0) {fraction : Option (List Char)}
    (hfraction : ∀ ds ∈ fraction, ∀ c ∈ ds, c.isDigit) :
    WellFormed ⟨Nat.toDigits 10 n ++ List.replicate k '0', fraction, none⟩ := by
  refine ⟨fun c hc => ?_, ?_, hfraction⟩
  · rcases List.mem_append.mp hc with hdigit | hzero
    · exact isDigit_toDigits c hdigit
    · rw [List.eq_of_mem_replicate hzero]
      rfl
  · by_cases h0 : n = 0
    · rw [h h0, h0]
      exact .inl rfl
    · exact .inr (front_append h0 _)

/-- Zeros in the place of an exponent, and as many more as there are after the point, leave the value as it is. -/
theorem toDouble_zeros (negative : Bool) (h : 0 ≤ d.exponent) (k : Nat) :
    Decimal.toDouble negative ⟨Nat.ofDigitChars 10 (Nat.toDigits 10 d.digits ++
      List.replicate d.exponent.toNat '0' ++ List.replicate k '0') 0, 0 - (k : Int)⟩ = d.toDouble negative := by
  have hvalue : Nat.ofDigitChars 10 (Nat.toDigits 10 d.digits ++ List.replicate d.exponent.toNat '0' ++
      List.replicate k '0') 0 = d.digits * 10 ^ (d.exponent.toNat + k) := by
    rw [List.append_assoc, List.replicate_append_replicate, Nat.ofDigitChars_append, Nat.ofDigitChars_ten_toDigits,
      Nat.ofDigitChars_replicate_zero, Nat.mul_comm]
  have hexp : (0 - k : Int) + ((d.exponent.toNat + k : Nat) : Int) = d.exponent := by omega
  rw [hvalue, Decimal.toDouble_mul_pow, hexp]

/-- All digits before the point, zeros between, and one zero after the point if there is a fraction. -/
theorem writes_before_point (h : d.digits = 0 → d.exponent = 0) (hpoint : (Nat.toDigits 10 d.digits).length ≤ d.point)
    (keeps : Bool) :
    Writes ⟨Nat.toDigits 10 d.digits ++ List.replicate (d.point - (Nat.toDigits 10 d.digits).length).toNat '0',
      if keeps then some ['0'] else none, none⟩ d := by
  obtain ⟨hexponent, hcount⟩ :
      0 ≤ d.exponent ∧ (d.point - (Nat.toDigits 10 d.digits).length).toNat = d.exponent.toNat := by
    unfold Decimal.point at hpoint ⊢
    omega
  rw [hcount]
  refine ⟨wellFormed_zeros (fun h0 => by rw [h h0]; rfl) (by simp), fun negative => ?_⟩
  cases keeps with
  | true => exact toDouble_zeros negative hexponent 1
  | false => simpa [toDecimal] using toDouble_zeros negative hexponent 0

/-- **A decimal is written as a number of its value**, if zero is written without an exponent. It is one of digits alone
only where the fraction of a whole number is dropped. -/
theorem exists_text_decimal {l : NumberLayout} (hl : l.positional 0) (h : d.digits = 0 → d.exponent = 0) :
    ∃ n : Numeral, l.decimal d = n.text ∧ n.Writes d ∧ (l.keepsFraction → n.isWhole = false) := by
  have hlen := Nat.length_toDigits_pos (b := 10) (n := d.digits)
  have hzero : d.digits = 0 → (Nat.toDigits 10 d.digits).length = 1 ∧ d.point = 1 := fun h0 => by
    rw [Decimal.point, h h0, h0]
    exact ⟨rfl, rfl⟩
  unfold NumberLayout.decimal
  dsimp only
  split_ifs with hplace
  · unfold NumberLayout.place
    split_ifs with hsmall hinside hkeeps
    · exact ⟨_, by simp [text], writes_after_point hsmall, fun _ => rfl⟩
    · have hd : d.digits ≠ 0 := fun h0 => by
        obtain ⟨hone, hpoint⟩ := hzero h0
        omega
      have hwrites : Writes ⟨(Nat.toDigits 10 d.digits).take d.point.toNat,
          some ((Nat.toDigits 10 d.digits).drop d.point.toNat), none⟩ d :=
        writes_around_point hd (by omega) rfl (by omega) (by rw [Option.getD_none]; omega)
      exact ⟨_, by simp [text], hwrites, fun _ => rfl⟩
    · exact ⟨_, by simp [text], writes_before_point h (Int.not_lt.mp hinside) true, fun _ => rfl⟩
    · exact ⟨_, by simp [text], writes_before_point h (Int.not_lt.mp hinside) false, fun hk => absurd hk hkeeps⟩
  · have hd : d.digits ≠ 0 := fun h0 => by
      rw [(hzero h0).2] at hplace
      exact hplace hl
    have hmark : (some (d.point - 1)).getD 0 + (1 : Nat) = d.point := by
      rw [Option.getD_some]
      omega
    unfold NumberLayout.scientific
    by_cases hone : (Nat.toDigits 10 d.digits).length ≤ 1
    · have hrest : (none : Option (List Char)).getD [] = (Nat.toDigits 10 d.digits).drop 1 := by
        rw [List.drop_eq_nil_of_le hone]
        rfl
      have hwrites := writes_around_point hd Nat.one_pos hrest hlen hmark
      exact ⟨_, by simp [text, exponentText, hone], hwrites, fun _ => rfl⟩
    · have hrest : (some ((Nat.toDigits 10 d.digits).drop 1)).getD [] = (Nat.toDigits 10 d.digits).drop 1 := rfl
      have hwrites := writes_around_point hd Nat.one_pos hrest hlen hmark
      exact ⟨_, by simp [text, exponentText, hone], hwrites, fun _ => rfl⟩

/-- The decimal that a magnitude is written as. -/
theorem exists_decimal (tie : Tie) (m : Fin 0x7FF0000000000000) : ∃ d : Decimal,
    (if m.val = 0 then ⟨0, 0⟩ else Double.shortest tie m) = d ∧
      (d.digits = 0 → d.exponent = 0) ∧ ∀ negative, d.toDouble negative = .finite negative m := by
  by_cases hm : m.val = 0
  · have hzero : m = 0 := Fin.ext hm
    refine ⟨⟨0, 0⟩, if_pos hm, fun _ => rfl, fun negative => ?_⟩
    rw [hzero, Decimal.toDouble, if_pos rfl]
    rfl
  · have hback := fun negative => Double.toDouble_shortest tie negative m
    refine ⟨_, if_neg hm, fun h0 => ?_, hback⟩
    -- the digits are not zero, or zero would be read back
    have hfalse := hback false
    rw [Decimal.toDouble, if_pos h0] at hfalse
    cases hfalse
    exact absurd rfl hm

/-- **A finite number is written as a sign and a number** that is read as it. -/
theorem exists_text_finite {l : NumberLayout} (hl : l.positional 0) (negative : Bool) (m : Fin 0x7FF0000000000000) :
    ∃ n : Numeral, l.text (.finite negative m) = (if negative then '-' :: n.text else n.text) ∧ n.WellFormed ∧
      n.toDecimal.toDouble negative = .finite negative m ∧ (l.keepsFraction → n.isWhole = false) := by
  obtain ⟨d, hd, hzero, hback⟩ := exists_decimal l.tie m
  obtain ⟨n, htext, hn, hwhole⟩ := exists_text_decimal hl hzero
  exact ⟨n, by rw [NumberLayout.text, hd, htext], hn.toWellFormed, (hn.value negative).trans (hback negative), hwhole⟩

/-! ### The characters of a number -/

/-- No control character. -/
def isPrintable (c : Char) : Bool :=
  0x20 ≤ c.toNat

theorem newline_notMem_of_printable (h : ds.all isPrintable) : '\n' ∉ ds := fun hmem => by
  have hprintable := List.all_eq_true.mp h _ hmem
  cases hprintable

theorem printable_digits (hd : ∀ c ∈ ds, c.isDigit) : ds.all isPrintable := by
  refine List.all_eq_true.mpr fun c hc => decide_eq_true ?_
  have hdigit := hd c hc
  simp only [Char.isDigit, Bool.and_eq_true, decide_eq_true_eq] at hdigit
  exact Nat.le_trans (by decide) (UInt32.le_iff_toNat_le.mp hdigit.1)

theorem printable_exponentText (e : Int) : (exponentText e).all isPrintable := by
  have hdigits := printable_digits (isDigit_toDigits (n := e.natAbs))
  unfold exponentText
  split_ifs <;> rw [List.all_cons, List.all_cons, hdigits] <;> rfl

theorem printable_text {m : Numeral} (hm : m.WellFormed) : m.text.all isPrintable := by
  obtain ⟨ds, fraction, exponent⟩ := m
  have hwhole := printable_digits hm.whole
  have hfraction : (fraction.elim [] ('.' :: ·)).all isPrintable := by
    cases fraction with
    | none => rfl
    | some ds => exact (congrArg (isPrintable '.' && ·) (printable_digits (hm.fraction ds rfl))).trans rfl
  have hexponent : (exponent.elim [] exponentText).all isPrintable := by
    cases exponent with
    | none => rfl
    | some e => exact printable_exponentText e
  rw [text, List.all_append, List.all_append, hwhole, hfraction, hexponent]
  rfl

theorem printable_intText (i : Int) : (intText i).all isPrintable := by
  have hdigits := printable_digits (isDigit_toDigits (n := i.natAbs))
  unfold intText
  split_ifs
  · rw [List.all_cons, hdigits]
    rfl
  · exact hdigits

theorem printable_finite {l : NumberLayout} (hl : l.positional 0) (negative : Bool) (m : Fin 0x7FF0000000000000) :
    (l.text (.finite negative m)).all isPrintable := by
  obtain ⟨n, htext, hn, -⟩ := exists_text_finite hl negative m
  have hnumber := printable_text hn
  rw [htext]
  cases negative with
  | true => exact (congrArg (isPrintable '-' && ·) hnumber).trans rfl
  | false => exact hnumber

theorem printable_jsonText (x : Double) : (NumberLayout.json.text x).all isPrintable := by
  cases x with
  | infinite negative => cases negative <;> rfl
  | nan => rfl
  | finite negative m => exact printable_finite rfl negative m

namespace Json5

/-! ### Numbers as they are read -/

/-- A digit begins a decimal number, unless a zero begins a hexadecimal one. -/
theorem unsigned_of_digit {c : Char} {cs : List Char} (negative : Bool) (hc : c.isDigit)
    (hx : cs.head?.all fun c => c != 'x' && c != 'X') : unsigned negative (c :: cs) = decimal negative (c :: cs) := by
  unfold unsigned
  split
  all_goals rename_i heq
  · cases heq
    cases hc
  · cases heq
    cases hc
  · cases heq
    cases hx
  · cases heq
    cases hx
  · rfl

variable {m : Numeral}

theorem decimal_text (negative : Bool) (hm : m.WellFormed) (ht : endsNumber tail) :
    decimal negative (m.text ++ tail) =
      if m.isWhole then some (whole negative (Nat.ofDigitChars 10 m.whole 0), tail)
      else some (.double (m.toDecimal.toDouble negative), tail) := by
  unfold decimal
  rw [read_text hm ht]
  simp only [Option.bind_eq_bind, Option.bind_some]
  split
  · rename_i heq
    rcases hm.front with hzero | ⟨-, hhead⟩
    · rw [hzero] at heq
      cases heq
    · rw [heq] at hhead
      exact absurd rfl hhead
  · rfl

/-- No mark of a hexadecimal number follows the first digit. -/
theorem unsigned_text (negative : Bool) (hm : m.WellFormed) (ht : endsNumber tail) :
    unsigned negative (m.text ++ tail) = decimal negative (m.text ++ tail) := by
  obtain ⟨whole, fraction, exponent⟩ := m
  obtain ⟨hwhole, hfront, -⟩ := hm
  cases whole with
  | nil => simp at hfront
  | cons c ds =>
    refine unsigned_of_digit negative (hwhole c (by simp)) ?_
    cases ds with
    | cons c' ds =>
      have hdigit : c'.isDigit := hwhole c' (by simp)
      have hmark : c' ≠ 'x' ∧ c' ≠ 'X' := by constructor <;> rintro rfl <;> cases hdigit
      simpa [text] using hmark
    | nil =>
      cases fraction with
      | some ds => rfl
      | none =>
        cases exponent with
        | some e => rfl
        | none =>
          cases tail with
          | nil => rfl
          | cons c' tail =>
            simp only [endsNumber, List.head?_cons, Option.all_some, Bool.not_eq_true', Bool.or_eq_false_iff,
              beq_eq_false_iff_ne] at ht
            simp [ht]

theorem number_of_digit {c : Char} (cs : List Char) (hc : c.isDigit) : number (c :: cs) = unsigned false (c :: cs) := by
  unfold number
  split
  all_goals rename_i heq
  · cases heq
    cases hc
  · cases heq
    cases hc
  · rfl

/-- A number is read from its text, after a sign if there is one. -/
theorem number_text (negative : Bool) (hm : m.WellFormed) (ht : endsNumber tail) :
    number ((if negative then '-' :: m.text else m.text) ++ tail) =
      if m.isWhole then some (whole negative (Nat.ofDigitChars 10 m.whole 0), tail)
      else some (.double (m.toDecimal.toDouble negative), tail) := by
  have hread : unsigned negative (m.text ++ tail) = _ :=
    (unsigned_text negative hm ht).trans (decimal_text negative hm ht)
  cases negative with
  | true => exact hread
  | false =>
    obtain ⟨c, cs, hfirst, hdigit⟩ := exists_digit_text hm
    rw [hfirst] at hread
    rw [if_neg Bool.false_ne_true, hfirst]
    exact (number_of_digit _ hdigit).trans hread

/-- **A whole number is read back from its text**, as far as 64 bits hold it. -/
theorem number_intText {i : Int} (hlow : -0x8000000000000000 ≤ i) (hhigh : i < 0x10000000000000000)
    (ht : endsNumber tail) : number (intText i ++ tail) = some (.int i, tail) := by
  have hm : WellFormed ⟨Nat.toDigits 10 i.natAbs, none, none⟩ := by
    refine ⟨isDigit_toDigits, ?_, by simp⟩
    by_cases hi : i.natAbs = 0
    · exact .inl (by rw [hi, Nat.toDigits_zero])
    · have hfront := front_append hi []
      rw [List.append_nil] at hfront
      exact .inr hfront
  have hsign : (if i < 0 then -(i.natAbs : Int) else i.natAbs) = i := by omega
  have hread := number_text (decide (i < 0)) hm ht
  have htext : intText i = if decide (i < 0) then '-' :: text ⟨Nat.toDigits 10 i.natAbs, none, none⟩
      else text ⟨Nat.toDigits 10 i.natAbs, none, none⟩ := by
    simp [intText, text]
  rw [htext, hread]
  simp only [isWhole, Option.isNone_none, Bool.and_self, if_true, whole, decide_eq_true_eq, hsign,
    Nat.ofDigitChars_ten_toDigits, hlow, hhigh, and_self]

/-- **A finite double is read back from its text.** -/
theorem number_jsonText {x : Double} (hx : x.isFinite) (ht : endsNumber tail) :
    number (NumberLayout.json.text x ++ tail) = some (.double x, tail) := by
  cases x with
  | infinite | nan => cases hx
  | finite negative m =>
    obtain ⟨n, htext, hn, hvalue, hwhole⟩ := exists_text_finite (l := .json) rfl negative m
    rw [htext, number_text negative hn ht, if_neg (by rw [hwhole rfl]; decide), hvalue]

theorem startsNumber_intText (i : Int) : ∃ c cs, intText i = c :: cs ∧ startsNumber c := by
  unfold intText
  split_ifs with hi
  · exact ⟨_, _, rfl, rfl⟩
  · cases hds : Nat.toDigits 10 i.natAbs with
    | nil => exact absurd hds Nat.toDigits_ne_nil
    | cons c ds =>
      have hdigit : c.isDigit := isDigit_toDigits (n := i.natAbs) c (by simp [hds])
      exact ⟨c, ds, rfl, by simp [startsNumber, hdigit]⟩

theorem startsNumber_jsonText {x : Double} (hx : x.isFinite) :
    ∃ c cs, NumberLayout.json.text x = c :: cs ∧ startsNumber c := by
  cases x with
  | infinite | nan => cases hx
  | finite negative m =>
    obtain ⟨n, htext, hn, -⟩ := exists_text_finite (l := .json) rfl negative m
    rw [htext]
    cases negative with
    | true => exact ⟨_, _, rfl, rfl⟩
    | false =>
      obtain ⟨c, cs, hfirst, hdigit⟩ := exists_digit_text hn
      exact ⟨c, cs, hfirst, by simp [startsNumber, hdigit]⟩

end Json5

/-! ### Plain text -/

namespace Condition

variable {x y : Double}

theorem printable_numberText (x : Double) : (numberText x).toList.all isPrintable := by
  rw [numberText, String.toList_ofList]
  cases x with
  | infinite negative => cases negative <;> rfl
  | nan => rfl
  | finite negative m => exact printable_finite rfl negative m

/-- **A finite number is read back from its plain text.** -/
theorem readDouble?_numberText (h : x.isFinite) : readDouble? (numberText x) = some x := by
  cases x with
  | infinite | nan => cases h
  | finite negative m =>
    obtain ⟨n, htext, hn, hvalue, -⟩ := exists_text_finite (l := .plain) rfl negative m
    obtain ⟨c, cs, hfirst, hdigit⟩ := exists_digit_text hn
    have hread : read (n.text ++ []) = some (n, []) := read_text hn rfl
    rw [List.append_nil, hfirst] at hread
    rw [readDouble?, numberText, String.toList_ofList, htext, hfirst]
    cases negative with
    | true => simp only [if_true, hread, hvalue]
    | false =>
      have hminus : c ≠ '-' := by rintro rfl; cases hdigit
      have hplus : c ≠ '+' := by rintro rfl; cases hdigit
      simp [hminus, hplus, hread, hvalue]

/-- So different numbers have different texts, the two zeros among them. -/
theorem numberText_injective (hx : x.isFinite) (hy : y.isFinite) (h : numberText x = numberText y) : x = y := by
  have hread := readDouble?_numberText hx
  rw [h, readDouble?_numberText hy] at hread
  exact (Option.some.inj hread).symm

end Condition

end ConditionTree
