import ConditionTree.Proofs.InfixGrammar
import ConditionTree.Proofs.Violations
import Mathlib.Data.List.TakeWhile

/-!
# Reading the infix text

The text of a tree is read by the infix grammar, and what is read is worth what the tree is worth under every valuation
of the atoms by their text (`infix_text_means_the_tree`). The reading is not the tree itself: the connective of brackets
is not written, and a chain of one connective is read from the left to the right whatever its shape was. Neither matters
for the value.

Words have to be told apart, so the series of the tree may hold neither spaces nor brackets. They may spell an operator.
-/

namespace ConditionTree

namespace Infix

/-- A text of one word. -/
def IsWord (s : String) : Prop :=
  s ≠ "" ∧ s.toList.all isWordChar

variable {c : Char} {cs x y : List Char} {s : String} {ts us : List Token} {f g : Formula} {level : Level}

/-! ### Tokens of a text made of parts -/

theorem takeWhile_append_break {p : Char → Bool} (hc : p c = false) (x y : List Char) :
    (x ++ c :: y).takeWhile p = x.takeWhile p ∧ (x ++ c :: y).dropWhile p = x.dropWhile p ++ c :: y := by
  induction x with
  | nil => simp [hc]
  | cons d x ih =>
    cases hd : p d with
    | true => simp [hd, ih]
    | false => simp [hd]

/-- A character that is in no word ends the tokens before it. -/
theorem tokens_append (hc : isWordChar c = false) (x y : List Char) :
    tokens (x ++ c :: y) = tokens x ++ tokens (c :: y) := by
  fun_induction tokens x with
  | case1 => rfl
  | case2 cs ih => rw [List.cons_append, tokens, if_pos rfl, ih]
  | case3 cs hspace ih =>
    rw [List.cons_append, tokens, if_neg hspace, if_pos rfl, ih]
    rfl
  | case4 cs hspace hopen ih =>
    rw [List.cons_append, tokens, if_neg hspace, if_neg hopen, if_pos rfl, ih]
    rfl
  | case5 d cs hspace hopen hclose ih =>
    obtain ⟨htake, hdrop⟩ := takeWhile_append_break hc cs y
    rw [List.cons_append, tokens, if_neg hspace, if_neg hopen, if_neg hclose, htake, hdrop, ih]
    rfl

theorem tokens_space (x y : List Char) : tokens (x ++ ' ' :: y) = tokens x ++ tokens y := by
  rw [tokens_append rfl, tokens]
  rfl

theorem tokens_bracketed (s : String) :
    tokens (Condition.bracketed s).toList = .opening :: tokens s.toList ++ [.closing] := by
  have htext : (Condition.bracketed s).toList = '(' :: (s.toList ++ [')']) := by
    simp [Condition.bracketed]
  have hclosing : tokens [')'] = [.closing] := by simp [tokens]
  rw [htext, tokens, if_neg (by decide), if_pos rfl, tokens_append rfl, hclosing]
  rfl

theorem tokens_word (h : IsWord s) : tokens s.toList = [.word s] := by
  obtain ⟨hne, hall⟩ := h
  cases hs : s.toList with
  | nil => exact absurd (String.toList_eq_nil_iff.mp hs) hne
  | cons d cs =>
    rw [hs, List.all_cons, Bool.and_eq_true] at hall
    obtain ⟨hd, hcs⟩ := hall
    have hcs : ∀ c ∈ cs, isWordChar c := List.all_eq_true.mp hcs
    have htake : cs.takeWhile isWordChar = cs := List.takeWhile_eq_self_iff.mpr hcs
    have hdrop : cs.dropWhile isWordChar = [] := List.dropWhile_eq_nil_iff.mpr hcs
    have hbreaks : (d ≠ ' ' ∧ d ≠ '(') ∧ d ≠ ')' := by simpa [isWordChar] using hd
    have hback : String.ofList (d :: cs) = s := by rw [← hs, String.ofList_toList]
    rw [tokens, if_neg hbreaks.1.1, if_neg hbreaks.1.2, if_neg hbreaks.2, htake, hdrop, tokens, hback]

/-- The tokens of two texts with an operator between them. -/
theorem tokens_between {w : String} (hw : IsWord w) (a b : String) :
    tokens (a ++ " " ++ w ++ " " ++ b).toList = tokens a.toList ++ .word w :: tokens b.toList := by
  have htext : (a ++ " " ++ w ++ " " ++ b).toList = a.toList ++ ' ' :: (w.toList ++ ' ' :: b.toList) := by
    simp
  rw [htext, tokens_space, tokens_space, tokens_word hw]
  rfl

theorem reads_word (h : IsWord s) : Reads .factor (tokens s.toList) (.atom s) := by
  rw [tokens_word h]
  exact .operand s

theorem isWord_connective (o : Connective) : IsWord o.symbol := by
  cases o <;> exact ⟨by decide, rfl⟩

theorem isWord_comparator (o : Comparator) : IsWord o.symbol := by
  cases o <;> exact ⟨by decide, rfl⟩

/-! ### Parts of a reading -/

theorem Reads.of_factor (h : Reads .factor ts f) (o : Connective) : Reads (.chain o) ts f := by
  have hand : Reads (.chain .and) ts f := .single .and h
  cases o with
  | and => exact hand
  | or => exact .single .or hand

/-- Every part may stand alone. -/
theorem Reads.whole (h : Reads level ts f) : Reads (.chain .or) ts f := by
  match level, h with
  | .factor, h => exact h.of_factor .or
  | .chain .and, h => exact .single .or h
  | .chain .or, h => exact h

theorem join_assoc (o : Connective) (x y z : Bool) : o.join (o.join x y) z = o.join x (o.join y z) := by
  cases o
  · exact Bool.and_assoc x y z
  · exact Bool.or_assoc x y z

/-- Two chains of one connective are read as one, which is worth what they are worth joined. -/
theorem exists_reads_append {o : Connective} : ∀ {ts us : List Token} {f g : Formula}, Reads (.chain o) ts f →
    Reads (.chain o) us g → ∃ h, Reads (.chain o) (ts ++ .word o.symbol :: us) h ∧
      ∀ v, h.value v = o.join (f.value v) (g.value v)
  | _, us, _, g, .single _ hf, hg => ⟨_, .join o hf hg, fun _ => rfl⟩
  | _, us, _, g, @Reads.join _ ts us' f f' hf hf', hg => by
    obtain ⟨h, hreads, hvalue⟩ := exists_reads_append hf' hg
    refine ⟨.join o f h, ?_, fun v => ?_⟩
    · rw [List.append_assoc, List.cons_append]
      exact .join o hf hreads
    · rw [Formula.value, hvalue, Formula.value, join_assoc]

end Infix

open Infix

/-! ### The words of a tree -/

theorem isWordChar_of_isDigit {c : Char} (h : c.isDigit) : isWordChar c := by
  have hne : ∀ d : Char, d.isDigit = false → c ≠ d := by
    rintro d hd rfl
    rw [h] at hd
    cases hd
  simp [isWordChar, hne ' ' rfl, hne '(' rfl, hne ')' rfl]

/-- Digits with a point among them are a word. -/
theorem isWordChar_of_mem_place {digits : List Char} (hd : ∀ c ∈ digits, c.isDigit) (point : Int) :
    ∀ c ∈ NumberLayout.plain.place digits point, isWordChar c := by
  have hdigits : ∀ c ∈ digits, isWordChar c := fun c hc => isWordChar_of_isDigit (hd c hc)
  have hzeros : ∀ n : Nat, ∀ c ∈ List.replicate n '0', isWordChar c := by
    intro n c hc
    rw [List.eq_of_mem_replicate hc]
    rfl
  intro c hc
  unfold NumberLayout.place at hc
  split_ifs at hc with hzero hinside hfraction
  · rcases List.mem_cons.mp hc with rfl | hc
    · rfl
    · rcases List.mem_cons.mp hc with rfl | hc
      · rfl
      · rcases List.mem_append.mp hc with hc | hc
        · exact hzeros _ c hc
        · exact hdigits c hc
  · rcases List.mem_append.mp hc with hc | hc
    · exact hdigits c (List.mem_of_mem_take hc)
    · rcases List.mem_cons.mp hc with rfl | hc
      · rfl
      · exact hdigits c (List.mem_of_mem_drop hc)
  · cases hfraction
  · rw [List.append_nil] at hc
    rcases List.mem_append.mp hc with hc | hc
    · exact hdigits c hc
    · exact hzeros _ c hc

theorem place_ne_nil {digits : List Char} (hd : digits ≠ []) (point : Int) :
    NumberLayout.plain.place digits point ≠ [] := by
  unfold NumberLayout.place
  split_ifs <;> simp [hd]

theorem isWord_numberText (x : Double) : IsWord (Condition.numberText x) := by
  have hword : ∀ cs : List Char, cs ≠ [] → cs.all isWordChar → IsWord (String.ofList cs) := by
    intro cs hne hall
    exact ⟨by simpa using hne, by rwa [String.toList_ofList]⟩
  unfold Condition.numberText
  cases x with
  | infinite negative => cases negative <;> exact hword _ (by decide) rfl
  | nan => exact hword _ (by decide) rfl
  | finite negative m =>
    have hmagnitude : ∀ d : Decimal, NumberLayout.plain.decimal d ≠ [] ∧
        ∀ c ∈ NumberLayout.plain.decimal d, isWordChar c := by
      intro d
      have hdigits : ∀ c ∈ Nat.toDigits 10 d.digits, c.isDigit := fun c hc =>
        Nat.isDigit_of_mem_toDigits (by decide) (by decide) hc
      exact ⟨place_ne_nil Nat.toDigits_ne_nil _, isWordChar_of_mem_place hdigits _⟩
    obtain ⟨hne, hall⟩ := hmagnitude (if m.val = 0 then ⟨0, 0⟩ else Double.shortest .up m)
    have hall := List.all_eq_true.mpr hall
    cases negative with
    | false => exact hword _ hne hall
    | true => exact hword ('-' :: _) (List.cons_ne_nil _ _) hall

namespace Condition

variable {c l r child : Condition} {o : Connective}

/-- Every series of the tree is one word. -/
def HasWords : Condition → Prop
  | reference (some s) => IsWord s
  | comparison _ l r | boolean _ l r => l.HasWords ∧ r.HasWords
  | group _ child => child.HasWords
  | _ => True

theorem isWord_of_isOperand (h : c.isOperand) (hw : c.HasWords) : IsWord c.text := by
  cases c with
  | number x => exact isWord_numberText x
  | reference s =>
    cases s with
    | none => exact ⟨by decide, rfl⟩
    | some s => exact hw
  | _ => cases h

/-! ### The reading of a tree -/

/-- How tightly the text of a tree holds together. -/
def textLevel : Condition → Level
  | boolean o _ _ => .chain o
  | _ => .factor

/-- A side of a boolean node is a part of its chain, in brackets if it is a chain of the other connective. -/
theorem reads_side {f : Formula} (o : Connective) (h : Reads c.textLevel (tokens c.text.toList) f) :
    Reads (.chain o) (tokens (if isMixed o c then bracketed c.text else c.text).toList) f := by
  by_cases hmixed : isMixed o c = true
  · rw [if_pos hmixed, tokens_bracketed]
    exact (Reads.brackets h.whole).of_factor o
  · rw [if_neg hmixed]
    cases c with
    | boolean o' l r =>
      have ho : o' = o := by simpa [isMixed] using hmixed
      exact ho ▸ h
    | _ => exact Reads.of_factor h o

/-- **The text of a tree has a reading**, which is worth what the tree is worth. -/
theorem exists_reads (hc : c.breaches .nonOperand = 0) (hw : c.HasWords) :
    ∃ f, Reads c.textLevel (tokens c.text.toList) f ∧ ∀ v, f.value v = c.value fun atom => v atom.text := by
  induction c with
  | number x => exact ⟨.atom (numberText x), reads_word (isWord_numberText x), fun _ => rfl⟩
  | reference s => exact ⟨.atom (reference s).text, reads_word (isWord_of_isOperand rfl hw), fun _ => rfl⟩
  | comparison o l r =>
    have hl : IsWord l.text := isWord_of_isOperand (isOperand_of_branch (b := .left) hc rfl) hw.1
    have hr : IsWord r.text := isWord_of_isOperand (isOperand_of_branch (b := .right) hc rfl) hw.2
    refine ⟨.atom (comparisonText l.text o r.text), ?_, fun _ => rfl⟩
    rw [text, tokens_between (isWord_comparator o), tokens_word hl, tokens_word hr]
    exact .comparison l.text o r.text
  | boolean o l r ihl ihr =>
    rw [breaches_boolean] at hc
    obtain ⟨f, hf, hvf⟩ := ihl (by omega) hw.1
    obtain ⟨g, hg, hvg⟩ := ihr (by omega) hw.2
    obtain ⟨h, hreads, hvalue⟩ := exists_reads_append (reads_side o hf) (reads_side o hg)
    refine ⟨h, ?_, fun v => by rw [hvalue, hvf, hvg]; rfl⟩
    rw [text, tokens_between (isWord_connective o)]
    exact hreads
  | group o child ih =>
    rw [breaches_group] at hc
    obtain ⟨f, hf, hvf⟩ := ih (by omega) hw
    refine ⟨f, ?_, hvf⟩
    rw [text, tokens_bracketed]
    exact .brackets hf.whole

end Condition

open Condition

/-- **The infix text means what the tree means.** Where comparisons stand between operands and every series is a word,
the text is read, in one way only, and what is read has the value of the tree under every valuation of the atoms by
their text. So two such trees of one text have the same value under all of these. -/
theorem infix_text_means_the_tree {c : Condition} (hc : c.breaches .nonOperand = 0) (hw : c.HasWords) :
    (∃ f, read? c.text = some f ∧ (∀ g, IsReading c.text g ↔ g = f) ∧
      ∀ v : String → Bool, f.value v = c.value fun atom => v atom.text) ∧
    ∀ c' : Condition, c'.breaches .nonOperand = 0 → c'.HasWords → c'.text = c.text →
      ∀ v : String → Bool, (c'.value fun atom => v atom.text) = c.value fun atom => v atom.text := by
  obtain ⟨f, hf, hvf⟩ := exists_reads hc hw
  have hread : read? c.text = some f := read?_eq_some_iff.mpr hf.whole
  refine ⟨⟨f, hread, fun g => ?_, hvf⟩, fun c' hc' hw' htext v => ?_⟩
  · rw [← read?_eq_some_iff, hread, Option.some.injEq, eq_comm]
  · obtain ⟨g, hg, hvg⟩ := exists_reads hc' hw'
    have hread' : read? c'.text = some g := read?_eq_some_iff.mpr hg.whole
    rw [htext, hread] at hread'
    cases hread'
    rw [← hvf, ← hvg]

/-- A chain of three rows of which the last stands in brackets; its series spell operators. -/
def Condition.operatorWords (o : Connective) : Condition :=
  boolean .and (reference (some "&&")) (boolean .and
    (comparison .greater (reference (some ">")) (number .zero))
    (group o (boolean .or (reference (some "||")) (reference none))))

/-- The rows of `operatorWords` joined from the left. -/
def Condition.operatorWordsFromLeft (o : Connective) : Condition :=
  boolean .and (boolean .and (reference (some "&&")) (comparison .greater (reference (some ">")) (number .zero)))
    (group o (boolean .or (reference (some "||")) (reference none)))

/-- Series that spell operators are read as operands. Trees that differ in the shape of a chain and in the connective of
brackets have one text and one meaning. -/
theorem operator_words_read_as_operands :
    (operatorWords .or).breaches .nonOperand = 0 ∧ (operatorWords .or).HasWords ∧
    (operatorWordsFromLeft .and).breaches .nonOperand = 0 ∧ (operatorWordsFromLeft .and).HasWords ∧
    (operatorWords .or).text = "&& && > > 0 && (|| || <unset>)" ∧
    (operatorWordsFromLeft .and).text = (operatorWords .or).text ∧
    read? (operatorWords .or).text = some (.join .and (.atom "&&") (.join .and (.atom "> > 0")
      (.join .or (.atom "||") (.atom "<unset>")))) ∧
    ∀ v : String → Bool, ((operatorWordsFromLeft .and).value fun atom => v atom.text) =
      (v "&&" && (v "> > 0" && (v "||" || v "<unset>"))) := by
  have hc : (operatorWords .or).breaches .nonOperand = 0 := rfl
  have hw : (operatorWords .or).HasWords :=
    ⟨⟨by decide, rfl⟩, ⟨⟨by decide, rfl⟩, trivial⟩, ⟨by decide, rfl⟩, trivial⟩
  have hc' : (operatorWordsFromLeft .and).breaches .nonOperand = 0 := rfl
  have hw' : (operatorWordsFromLeft .and).HasWords :=
    ⟨⟨⟨by decide, rfl⟩, ⟨by decide, rfl⟩, trivial⟩, ⟨by decide, rfl⟩, trivial⟩
  have htext : (operatorWords .or).text = "&& && > > 0 && (|| || <unset>)" := by decide +kernel
  have hsame : (operatorWordsFromLeft .and).text = (operatorWords .or).text := by decide +kernel
  obtain ⟨⟨f, hread, -, hvalue⟩, htrees⟩ := infix_text_means_the_tree hc hw
  have hf : read? (operatorWords .or).text = some (.join .and (.atom "&&") (.join .and (.atom "> > 0")
      (.join .or (.atom "||") (.atom "<unset>")))) := by decide +kernel
  cases hread.symm.trans hf
  exact ⟨hc, hw, hc', hw', htext, hsame, hf, fun v => by rw [htrees _ hc' hw' hsame v, ← hvalue]; rfl⟩

end ConditionTree
