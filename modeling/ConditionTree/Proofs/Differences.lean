import ConditionTree.Proofs.Commands
import ConditionTree.Proofs.Lines
import ConditionTree.Proofs.Scripts
import Mathlib.Data.Option.Basic

/-!
# What a difference tells

Without colors a difference is read back: its records say step by step how to come from the lines of the old text to
those of the new one (`records?_text`), in as few steps as can be. That of two trees is made of texts in which newlines
alone end a line. So both texts are had back from it, and both trees from these but for the signs of zeros, and nothing
is changed exactly if the trees are equal (`difference_is_faithful_and_tight`).
-/

namespace ConditionTree

/-! ### Pretty texts -/

/-- A character that stands in a text as it is shown, the newline among them. -/
def isShown (c : Char) : Bool :=
  c = '\n' || isPrintable c

namespace Json

variable {cs : List Char} {pieces : List (List Char)} {closing : Char}

theorem shown_of_printable (h : cs.all isPrintable) : cs.all isShown :=
  List.all_eq_true.mpr fun c hc => Bool.or_eq_true_iff.mpr (.inr (List.all_eq_true.mp h c hc))

theorem shown_line (level : Nat) : (Spacing.lines.line level).all isShown := by
  rw [Spacing.lines, List.all_cons, List.all_replicate]
  split_ifs <;> rfl

theorem shown_closeList (hclosing : isShown closing) (level : Nat) (h : ∀ piece ∈ pieces, piece.all isShown) :
    (closeList .lines level closing pieces).all isShown := by
  induction pieces with
  | nil => rw [closeList, List.all_append, shown_line, List.all_cons, hclosing]; rfl
  | cons piece rest ih =>
    have hrest := ih fun p hp => h p (List.mem_cons_of_mem piece hp)
    rw [closeList, List.all_cons, List.all_append, List.all_append, shown_line, h piece List.mem_cons_self, hrest]
    rfl

theorem shown_bracketBody (hclosing : isShown closing) (level : Nat) (h : ∀ piece ∈ pieces, piece.all isShown) :
    (bracketBody .lines level closing pieces).all isShown := by
  cases pieces with
  | nil => rw [bracketBody, List.all_cons, hclosing]; rfl
  | cons piece rest =>
    have hrest := shown_closeList hclosing level fun p hp => h p (List.mem_cons_of_mem piece hp)
    rw [bracketBody, List.all_append, List.all_append, shown_line, h piece List.mem_cons_self, hrest]
    rfl

/-- Control characters are escaped. -/
theorem shown_escape (c : Char) : (escape c).all isShown := by
  have hdigit : ∀ n, isShown (hexDigit n) := fun n => by
    have hdigits : ∀ k < 16, isShown (Nat.digitChar k) := by decide
    exact hdigits _ (Nat.mod_lt n (by decide))
  unfold escape
  split_ifs with _ _ _ _ _ _ _ hcontrol <;> try rfl
  · rw [List.all_cons, List.all_cons, List.all_cons, List.all_cons, List.all_cons, List.all_cons, hdigit, hdigit]
    rfl
  · exact shown_of_printable (by simpa [isPrintable] using hcontrol)

theorem shown_quoteChars (s : String) : (quoteChars s).all isShown := by
  have hbody : s.toList.all fun c => (escape c).all isShown := List.all_eq_true.mpr fun c _ => shown_escape c
  rw [quoteChars, List.all_cons, List.all_append, List.all_flatMap, hbody]
  rfl

mutual

/-- In a pretty text nothing but newlines is not shown. -/
theorem shown_spell (level : Nat) : ∀ v : Json, (v.spell .lines level).all isShown
  | null | bool true | bool false => rfl
  | int n => shown_of_printable (printable_intText n)
  | double x => shown_of_printable (printable_jsonText x)
  | string s => shown_quoteChars s
  | array items => by
    rw [spell, List.all_cons, shown_bracketBody rfl level (shown_spellItems (level + 1) items)]
    rfl
  | object members => by
    rw [spell, List.all_cons, shown_bracketBody rfl level (shown_spellMembers (level + 1) members)]
    rfl

theorem shown_spellItems (level : Nat) : ∀ items : List Json,
    ∀ piece ∈ spellItems .lines level items, piece.all isShown
  | [], _, h => absurd h List.not_mem_nil
  | item :: rest, piece, h => by
    rcases List.mem_cons.mp h with rfl | h
    · exact shown_spell level item
    · exact shown_spellItems level rest piece h

theorem shown_spellMembers (level : Nat) : ∀ members : List (String × Json),
    ∀ piece ∈ spellMembers .lines level members, piece.all isShown
  | [], _, h => absurd h List.not_mem_nil
  | (key, value) :: rest, piece, h => by
    rcases List.mem_cons.mp h with rfl | h
    · rw [List.all_append, shown_quoteChars, List.all_cons, List.all_append, shown_spell level value]
      rfl
    · exact shown_spellMembers level rest piece h

end

end Json

/-! ### Equal trees -/

theorem Double.equal_iff {x y : Double} (hx : x.isFinite) (hy : y.isFinite) :
    x.equal y ↔ x.positiveZero = y.positiveZero := by
  cases x with
  | infinite | nan => cases hx
  | finite negative m =>
    cases y with
    | infinite | nan => cases hy
    | finite negative' m' =>
      by_cases hm : m = m'
      · subst hm
        cases negative <;> cases negative' <;> cases hzero : m.val == 0 <;>
          simp_all [equal, positiveZero]
      · simp [equal, positiveZero, hm]

/-- Trees of finite numbers are equal exactly if they differ in signs of zeros at most. -/
theorem Condition.equal_iff {x y : Condition} (hx : x.AllFinite) (hy : y.AllFinite) :
    x.equal y ↔ x.positiveZeros = y.positiveZeros := by
  induction x generalizing y with
  | number v =>
    cases y with
    | number w => simpa [equal, positiveZeros] using Double.equal_iff hx hy
    | _ => simp [equal, positiveZeros]
  | reference s => cases y <;> simp [equal, positiveZeros]
  | comparison o l r ihl ihr =>
    cases y with
    | comparison o' l' r' => simp [equal, positiveZeros, ihl hx.1 hy.1, ihr hx.2 hy.2, and_assoc]
    | _ => simp [equal, positiveZeros]
  | boolean o l r ihl ihr =>
    cases y with
    | boolean o' l' r' => simp [equal, positiveZeros, ihl hx.1 hy.1, ihr hx.2 hy.2, and_assoc]
    | _ => simp [equal, positiveZeros]
  | group o child ih =>
    cases y with
    | group o' child' =>
      have hchild : child.equal child' ↔ child.positiveZeros = child'.positiveZeros := ih hx hy
      simp [equal, positiveZeros, hchild]
    | _ => simp [equal, positiveZeros]

/-- Equality of what may be there, where nothing is equal to nothing alone. -/
theorem Condition.rel_equal_iff {a b : Option Condition} (ha : ∀ t ∈ a, t.AllFinite) (hb : ∀ t ∈ b, t.AllFinite) :
    Option.Rel (fun x y => x.equal y) a b ↔ a.map positiveZeros = b.map positiveZeros := by
  cases a with
  | none => cases b <;> simp
  | some x =>
    cases b with
    | none => simp
    | some y => simp [equal_iff (ha x rfl) (hb y rfl)]

namespace Diff

open Document

variable {a b : Option Condition}

/-! ### Records -/

/-- The step that a record tells of, with the line in it. -/
def record? (line : String) : Option (Step String) :=
  match line.toList with
  | ' ' :: ' ' :: rest => some (.keep (String.ofList rest))
  | '-' :: ' ' :: rest => some (.delete (String.ofList rest))
  | '+' :: ' ' :: rest => some (.insert (String.ofList rest))
  | _ => none

/-- The steps that the records of a difference tell of. -/
def records? (text : String) : Option (List (Step String)) :=
  (Text.lines? text).bind (·.mapM record?)

/-- The sign of a step. -/
def Step.sign : Step String → String
  | keep _ => "  "
  | delete _ => "- "
  | insert _ => "+ "

/-- The line of a step. -/
def Step.item : Step String → String
  | keep line | delete line | insert line => line

theorem record_eq (step : Step String) : record false step = step.sign ++ dropNewlines step.item ++ "\n" := by
  cases step <;> rfl

theorem record?_sign (step : Step String) (body : String) :
    record? (step.sign ++ body) = some (step.map fun _ => body) := by
  cases step <;> simp [record?, Step.sign, Step.map]

theorem mem_olds_or_mem_news {s : List (Step String)} {step : Step String} (h : step ∈ s) :
    step.item ∈ olds s ∨ step.item ∈ news s := by
  cases step with
  | keep line | delete line => exact .inl (List.mem_filterMap.mpr ⟨_, h, rfl⟩)
  | insert line => exact .inr (List.mem_filterMap.mpr ⟨_, h, rfl⟩)

theorem mapM_record? (s : List (Step String)) :
    (s.map fun step => step.sign ++ dropNewlines step.item).mapM record? = some (s.map (Step.map dropNewlines)) := by
  induction s with
  | nil => rfl
  | cons step s ih =>
    have hstep : (step.map fun _ => dropNewlines step.item) = step.map dropNewlines := by cases step <;> rfl
    rw [List.map_cons, List.mapM_cons, record?_sign, hstep, ih]
    rfl

/-- **A difference is read back from its records.** -/
theorem records?_text (old new : String) :
    records? (text false old new) = some ((script (lines old) (lines new)).map (Step.map dropNewlines)) := by
  have htext : text false old new = String.join
      (((script (lines old) (lines new)).map fun step => step.sign ++ dropNewlines step.item).map (· ++ "\n")) := by
    rw [text, List.map_map]
    exact congrArg String.join (List.map_congr_left fun step _ => record_eq step)
  have hnewline : ∀ line ∈ (script (lines old) (lines new)).map fun step => step.sign ++ dropNewlines step.item,
      '\n' ∉ line.toList := by
    intro line hline
    obtain ⟨step, hstep, rfl⟩ := List.mem_map.mp hline
    have hsign : '\n' ∉ step.sign.toList := by cases step <;> simp [Step.sign]
    have hitem : '\n' ∉ (dropNewlines step.item).toList := by
      have hmem := mem_olds_or_mem_news hstep
      rw [olds_script, news_script] at hmem
      rcases hmem with hmem | hmem <;> exact (newline_of_mem_lines hmem).1
    rw [String.toList_append, List.mem_append]
    exact not_or.mpr ⟨hsign, hitem⟩
  rw [records?, htext, Text.lines?_join hnewline, Option.bind_some, mapM_record?]

/-! ### Trees -/

theorem toList_treeText (c : Option Condition) :
    (treeText c).toList = (Condition.content c).spell .lines 0 ++ ['\n'] := by
  have htext : treeText c = (Condition.content c).pretty ++ "\n" := rfl
  rw [htext, String.toList_append, Json.pretty, Json.toList_prettyAt]
  rfl

/-- All that ends a line of the text of a tree is a newline, so it is had back from what stands on its lines. -/
theorem join_bodies_treeText (c : Option Condition) :
    String.join (((lines (treeText c)).map dropNewlines).map (· ++ "\n")) = treeText c := by
  have hshown := Json.shown_spell 0 (Condition.content c)
  refine join_bodies ?_ ?_
  · rw [toList_treeText, List.mem_append, not_or]
    refine ⟨fun hreturn => ?_, by decide⟩
    have h := List.all_eq_true.mp hshown _ hreturn
    cases h
  · rw [toList_treeText, List.getLast?_concat]
    rintro _ ⟨⟩
    rfl

/-- **A tree is read from its text**, but for the signs of zeros. -/
theorem reading_treeText (ha : ∀ t ∈ a, t.AllFinite) :
    (Json5.document? (treeText a)).map reading = some (.ok (a.map Condition.positiveZeros)) := by
  obtain ⟨-, hread⟩ := Json5.document?_jsonText {} (Condition.isNormal_content a)
  have htext : treeText a = CommandLine.jsonText {} (Condition.content a) ++ "\n" := rfl
  rw [htext, hread, Option.map_some, reading_content ha]

theorem treeText_eq_iff (ha : ∀ t ∈ a, t.AllFinite) (hb : ∀ t ∈ b, t.AllFinite) :
    treeText a = treeText b ↔ a.map Condition.positiveZeros = b.map Condition.positiveZeros := by
  constructor
  · intro h
    have hread := reading_treeText ha
    rw [h, reading_treeText hb] at hread
    exact (Except.ok.inj (Option.some.inj hread)).symm
  · intro h
    exact congrArg (fun v : Json => v.pretty ++ "\n") (Condition.content_congr h)

theorem lines_inj {old new : String} : lines old = lines new ↔ old = new :=
  ⟨fun h => by rw [← join_lines old, h, join_lines], fun h => h ▸ rfl⟩

end Diff

open Condition Diff

/-- **A difference is faithful and tight.** For any two texts it is a list of records, cut after each newline, that
leads from the lines of the old text to those of the new one, where of each line only the newline at its end is dropped.
In every gap it deletes before it inserts, and no other script does with fewer changes. For any two trees of finite
numbers, or none, nothing is changed exactly if they are equal; both pretty texts are made of what the records hold, and
both trees are read from these but for the signs of zeros. -/
theorem difference_is_faithful_and_tight :
    (∀ old new : String, ∃ s : List (Step String), olds s = lines old ∧ news s = lines new ∧
      records? (text false old new) = some (s.map (Step.map dropNewlines)) ∧ DeletionsFirst s ∧
      ∀ s', olds s' = lines old → news s' = lines new → changes s ≤ changes s') ∧
    (∀ t, String.join (lines t) = t ∧
      ∀ l ∈ lines t, '\n' ∉ (dropNewlines l).toList ∧ (l = dropNewlines l ∨ l = dropNewlines l ++ "\n")) ∧
    ∀ a b : Option Condition, (∀ t ∈ a, t.AllFinite) → (∀ t ∈ b, t.AllFinite) →
      ∃ r, records? (trees false a b) = some r ∧
        (changes r = 0 ↔ Option.Rel (fun x y => x.equal y) a b) ∧
        String.join ((olds r).map (· ++ "\n")) = treeText a ∧
        String.join ((news r).map (· ++ "\n")) = treeText b ∧
        (Json5.document? (treeText a)).map Document.reading = some (.ok (a.map Condition.positiveZeros)) ∧
        (Json5.document? (treeText b)).map Document.reading = some (.ok (b.map Condition.positiveZeros)) := by
  refine ⟨fun old new => ?_, fun t => ⟨join_lines t, fun l hl => newline_of_mem_lines hl⟩, fun a b ha hb => ?_⟩
  · refine ⟨script (lines old) (lines new), olds_script _ _, news_script _ _, records?_text old new,
      deletionsFirst_script _ _, ?_⟩
    rintro s' hold hnew
    rw [← hold, ← hnew]
    exact changes_script_le s'
  · refine ⟨_, records?_text (treeText a) (treeText b), ?_, ?_, ?_, reading_treeText ha, reading_treeText hb⟩
    · rw [changes_map, changes_script_eq_zero_iff, lines_inj, treeText_eq_iff ha hb, Condition.rel_equal_iff ha hb]
    · rw [olds_map, olds_script, join_bodies_treeText]
    · rw [news_map, news_script, join_bodies_treeText]

/-- A comparison with a negative zero. -/
def signedComparison : Condition :=
  comparison .greater (reference (some "count-")) (number (.signedZero true))

/-- Of lines with three endings one stays, so the records tell of two changes at most. A comparison that is deleted is
told from nothing, and had back from the difference with its negative zero as zero. -/
theorem deleted_comparison_is_had_back :
    (∃ s, records? (text false "a\nb\r\n" "b\r\nc\r") = some (s.map (Step.map dropNewlines)) ∧
      olds s = ["a\n", "b\r\n"] ∧ changes s ≤ changes [.delete "a\n", .keep "b\r\n", .insert "c\r"]) ∧
    (∀ t ∈ some signedComparison, t.AllFinite) ∧
    ∃ r, records? (trees false (some signedComparison) none) = some r ∧ changes r ≠ 0 ∧
      (Json5.document? (String.join ((olds r).map (· ++ "\n")))).map Document.reading =
        some (.ok (some (comparison .greater (reference (some "count-")) (number .zero)))) := by
  have hfinite : ∀ t ∈ some signedComparison, t.AllFinite := by
    rintro t ⟨⟩
    exact ⟨trivial, rfl⟩
  obtain ⟨htexts, -, htrees⟩ := difference_is_faithful_and_tight
  obtain ⟨s, hold, -, hrecords, -, hleast⟩ := htexts "a\nb\r\n" "b\r\nc\r"
  obtain ⟨r, hrecords', hequal, hold', -, hread, -⟩ := htrees (some signedComparison) none hfinite fun t ht => by cases ht
  refine ⟨⟨s, hrecords, hold.trans rfl, hleast _ rfl rfl⟩, hfinite, r, hrecords', fun hzero => ?_, ?_⟩
  · cases hequal.mp hzero
  · rw [hold', hread]
    rfl

end ConditionTree
