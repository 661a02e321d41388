import ConditionTree.CommandLine.Run
import ConditionTree.Proofs.PathText
import Mathlib.Data.List.DropRight

/-!
# How texts end

The terminal gets a text without the newlines at its end and then one newline, a file gets one newline more only if there
is none. Both get the same unless the text ends in an empty line (`endLine_eq_iff`). An outline never does, since every
line of it ends in a path. The text of a summary does when the last of its lines is the list of the series and the last
series ends in a newline (`Summary.endsBlank_text`).
-/

namespace ConditionTree

/-- The text ends in an empty line. -/
def EndsBlank (text : String) : Prop :=
  ['\n', '\n'] <:+ text.toList

instance (text : String) : Decidable (EndsBlank text) :=
  inferInstanceAs (Decidable (['\n', '\n'] <:+ text.toList))

theorem getLast?_append_text (a b : String) : (a ++ b).toList.getLast? = b.toList.getLast?.or a.toList.getLast? := by
  rw [String.toList_append, List.getLast?_append]

/-- One more newline makes an empty line where there was one before. -/
theorem endsBlank_append_newline {line : String} :
    EndsBlank (line ++ "\n") ↔ line.toList.getLast? = some '\n' := by
  have htext : (line ++ "\n").toList = line.toList ++ ['\n'] := String.toList_append
  rw [EndsBlank, htext, List.suffix_concat_iff, List.getLast?_eq_some_iff]
  constructor
  · rintro (h | ⟨t, ht, front, hfront⟩)
    · cases h
    · obtain rfl : t = ['\n'] := (List.append_inj_left' ht rfl).symm
      exact ⟨front, hfront.symm⟩
  · rintro ⟨front, hfront⟩
    exact .inr ⟨['\n'], rfl, front, hfront.symm⟩

theorem not_endsBlank {text : String} (h : text.toList.getLast? ≠ some '\n') : ¬ EndsBlank text := by
  rintro ⟨front, hfront⟩
  rw [← hfront, List.getLast?_append] at h
  exact h rfl

/-! ### The two ways to end a text -/

theorem toList_dropNewlines (text : String) :
    (Diff.dropNewlines text).toList = text.toList.rdropWhile (· == '\n') := by
  rw [Diff.dropNewlines, String.toList_ofList, List.rdropWhile]

theorem dropNewlines_append_newline (text : String) : Diff.dropNewlines (text ++ "\n") = Diff.dropNewlines text := by
  apply String.toList_injective
  rw [toList_dropNewlines, toList_dropNewlines, String.toList_append]
  exact List.rdropWhile_concat_pos _ _ _ rfl

theorem dropNewlines_eq_self_iff {text : String} :
    Diff.dropNewlines text = text ↔ text.toList.getLast? ≠ some '\n' := by
  rw [← String.toList_inj, toList_dropNewlines, List.rdropWhile_eq_self_iff]
  constructor
  · intro h hlast
    have hne : text.toList ≠ [] := by
      rintro hnil
      rw [hnil] at hlast
      cases hlast
    rw [List.getLast?_eq_some_getLast hne, Option.some.injEq] at hlast
    exact h hne (beq_iff_eq.mpr hlast)
  · intro h hne hlast
    rw [List.getLast?_eq_some_getLast hne, beq_iff_eq.mp hlast] at h
    exact h rfl

@[simp] theorem dropNewlines_dropNewlines (text : String) :
    Diff.dropNewlines (Diff.dropNewlines text) = Diff.dropNewlines text := by
  apply String.toList_injective
  rw [toList_dropNewlines, toList_dropNewlines, List.rdropWhile_idempotent]

namespace CommandLine

theorem endLine_of_getLast? {text : String} (h : text.toList.getLast? ≠ some '\n') : endLine text = text ++ "\n" := by
  rw [endLine, if_neg h]

/-- Whatever is done to the end of a text, the rest of it stays. -/
@[simp] theorem dropNewlines_endLine (text : String) : Diff.dropNewlines (endLine text) = Diff.dropNewlines text := by
  unfold endLine
  split_ifs
  · rfl
  · exact dropNewlines_append_newline text

/-- **A file and the terminal get the same**, unless the text ends in an empty line. -/
theorem endLine_eq_iff {text : String} : endLine text = Diff.dropNewlines text ++ "\n" ↔ ¬ EndsBlank text := by
  by_cases hlast : text.toList.getLast? = some '\n'
  · -- the newline is there already, so all is said by what stands before it
    obtain ⟨front, hfront⟩ := List.getLast?_eq_some_iff.mp hlast
    obtain rfl : text = String.ofList front ++ "\n" := by
      apply String.toList_injective
      rw [hfront, String.toList_append, String.toList_ofList]
      rfl
    rw [endLine, if_pos hlast, dropNewlines_append_newline, String.append_left_inj, eq_comm, dropNewlines_eq_self_iff,
      endsBlank_append_newline]
  · rw [endLine_of_getLast? hlast, dropNewlines_eq_self_iff.mpr hlast]
    exact iff_of_true rfl (not_endsBlank hlast)

end CommandLine

/-! ### The last line -/

/-- The text is not empty, and its last character is no newline. -/
def EndsInLine (text : String) : Prop :=
  ∃ c, text.toList.getLast? = some c ∧ c ≠ '\n'

namespace EndsInLine

variable {text : String}

theorem append (h : EndsInLine text) (front : String) : EndsInLine (front ++ text) := by
  obtain ⟨c, hc, hne⟩ := h
  exact ⟨c, by rw [getLast?_append_text, hc, Option.some_or], hne⟩

theorem paint (h : EndsInLine text) (color : Bool) (style : Style) : EndsInLine (style.paint color text) := by
  have hreset : EndsInLine Style.reset := ⟨'m', by decide, by decide⟩
  unfold Style.paint
  split_ifs
  · exact hreset.append _
  · exact h

theorem intercalate {lines : List String} (h : EndsInLine text) (sep : String) (hlast : lines.getLast? = some text) :
    EndsInLine (String.intercalate sep lines) := by
  obtain ⟨front, rfl⟩ := List.getLast?_eq_some_iff.mp hlast
  by_cases hfront : front = []
  · rwa [hfront, List.nil_append, String.intercalate_singleton]
  · rw [String.intercalate_append_of_ne_nil hfront (List.cons_ne_nil _ _), String.intercalate_singleton]
    exact h.append _

theorem getLast?_ne (h : EndsInLine text) : text.toList.getLast? ≠ some '\n' := by
  obtain ⟨c, hc, hne⟩ := h
  rw [hc]
  exact fun heq => hne (Option.some.inj heq)

end EndsInLine

theorem endsInLine_pathText (p : Path) : EndsInLine p.text := by
  have hne : p.text.toList ≠ [] := by
    rw [Path.toList_text]
    exact List.cons_ne_nil _ _
  refine ⟨_, List.getLast?_eq_some_getLast hne, fun hc => ?_⟩
  exact Path.blank_notMem_text rfl p (hc ▸ List.getLast_mem hne)

theorem endsInLine_kindName (kind : NodeKind) : EndsInLine kind.name := by
  cases kind <;> exact ⟨_, rfl, by decide⟩

theorem endsInLine_message (v : Violation) : EndsInLine v.message := by
  cases v with
  | nestedGroup path =>
    have hend : EndsInLine ": group directly contains another group" := ⟨'p', by decide, by decide⟩
    exact hend.append _
  | nonOperand path kind => exact (endsInLine_kindName kind).append _

theorem endsInLine_toString (n : Nat) : EndsInLine (toString n) := by
  have hlist : (toString n).toList = Nat.toDigits 10 n := Nat.toList_repr
  have hne : Nat.toDigits 10 n ≠ [] := Nat.toDigits_ne_nil
  have hlast : (toString n).toList.getLast? = some ((Nat.toDigits 10 n).getLast hne) := by
    rw [hlist, List.getLast?_eq_some_getLast hne]
  refine ⟨_, hlast, fun hc => ?_⟩
  have hdigit := Nat.isDigit_of_mem_toDigits (by decide) (by decide) (List.getLast_mem hne)
  rw [hc] at hdigit
  cases hdigit

/-- Of many whole lines the last one tells how they end. -/
theorem endsBlank_append_lines {lines : List String} {last : String} (head : String) (hlast : lines.getLast? = some last)
    (hne : last ≠ "") : EndsBlank (head ++ String.join (lines.map (· ++ "\n"))) ↔ last.toList.getLast? = some '\n' := by
  obtain ⟨front, rfl⟩ := List.getLast?_eq_some_iff.mp hlast
  have htext : head ++ String.join ((front ++ [last]).map (· ++ "\n")) =
      head ++ String.join (front.map (· ++ "\n")) ++ last ++ "\n" := by
    simp [String.append_assoc]
  have hlist : last.toList ≠ [] := mt String.toList_eq_nil_iff.mp hne
  rw [htext, endsBlank_append_newline, String.toList_append, List.getLast?_append_of_ne_nil _ hlist]

theorem EndsInLine.not_endsBlank_lines {lines : List String} {last : String} (h : EndsInLine last) (head : String)
    (hlast : lines.getLast? = some last) : ¬ EndsBlank (head ++ String.join (lines.map (· ++ "\n"))) := by
  have hne : last ≠ "" := by
    rintro rfl
    obtain ⟨c, hc, -⟩ := h
    cases hc
  rw [endsBlank_append_lines head hlast hne]
  exact h.getLast?_ne

/-! ### Outlines -/

namespace Condition

theorem walk_ne_nil (c : Condition) : c.walk ≠ [] := by
  cases c <;> exact List.cons_ne_nil _ _

/-- An outline does not end in an empty line, whatever stands before it. -/
theorem not_endsBlank_append_outline (head : String) (color : Bool) (c : Condition) :
    ¬ EndsBlank (head ++ c.outline color) := by
  have hsome : c.walk.getLast? ≠ none := mt List.getLast?_eq_none_iff.mp c.walk_ne_nil
  obtain ⟨place, hplace⟩ := Option.ne_none_iff_exists'.mp hsome
  have hlast : (c.walk.map fun p => outlineLine color p.1 p.2).getLast? =
      some (outlineLine color place.1 place.2) := by
    rw [List.getLast?_map, hplace]
    rfl
  have hline : EndsInLine (outlineLine color place.1 place.2) :=
    ((endsInLine_pathText place.1).paint color .grey).append _
  have houtline : c.outline color =
      String.join ((c.walk.map fun p => outlineLine color p.1 p.2).map (· ++ "\n")) := by
    rw [outline, List.map_map]
    rfl
  rw [houtline]
  exact hline.not_endsBlank_lines head hlast

end Condition

/-! ### Summaries -/

namespace Summary

/-- The list of the series is the last line of the text, and it ends in a newline: the last series in order does, and
neither unset series nor broken rules are spoken of after it. -/
def EndsInNewline (s : Summary) : Prop :=
  s.unsetReferences = 0 ∧ s.violations = [] ∧ ∃ name ∈ s.series.getLast?, name.toList.getLast? = some '\n'

/-- The last line speaks of the last broken rule, or else of unset series, or else of the series. -/
theorem getLast?_lines (color : Bool) (s : Summary) : (s.lines color).getLast? =
    (s.violations.getLast?.map fun v => Style.red.paint color ("Violation: " ++ v.message)).or
      ((if s.unsetReferences = 0 then none
        else some (Style.yellow.paint color ("Unset series:     " ++ toString s.unsetReferences))).or
        ((if s.series.isEmpty then none
          else some ("Series:           " ++ String.intercalate ", " s.series)).or
          (some ("Operators:        " ++ toString s.andOperators ++ " x &&, " ++ toString s.orOperators ++ " x ||")))) := by
  rw [lines, List.getLast?_append, List.getLast?_append, List.getLast?_append, List.getLast?_map]
  split_ifs <;> rfl

/-- The line of the series ends as the last of them does, or else in a space. -/
theorem getLast?_seriesLine {series : List String} {name : String} (hname : series.getLast? = some name) :
    ("Series:           " ++ String.intercalate ", " series).toList.getLast? = name.toList.getLast?.or (some ' ') := by
  obtain ⟨front, rfl⟩ := List.getLast?_eq_some_iff.mp hname
  by_cases hfront : front = []
  · rw [hfront, List.nil_append, String.intercalate_singleton, getLast?_append_text]
    rfl
  · rw [String.intercalate_append_of_ne_nil hfront (List.cons_ne_nil _ _), String.intercalate_singleton,
      ← String.append_assoc, ← String.append_assoc, getLast?_append_text, getLast?_append_text]
    rfl

theorem endsBlank_seriesLine {lines series : List String} {name : String}
    (hlast : lines.getLast? = some ("Series:           " ++ String.intercalate ", " series))
    (hname : series.getLast? = some name) :
    EndsBlank ("" ++ String.join (lines.map (· ++ "\n"))) ↔ name.toList.getLast? = some '\n' := by
  have hne : "Series:           " ++ String.intercalate ", " series ≠ "" := by
    intro h
    simp at h
  rw [endsBlank_append_lines "" hlast hne, getLast?_seriesLine hname]
  cases name.toList.getLast? with
  | none => simp
  | some c => simp

/-- **The text of a summary ends in an empty line** only through the name of a series. -/
theorem endsBlank_text (color : Bool) (s : Summary) : EndsBlank (s.text color) ↔ s.EndsInNewline := by
  have htext : s.text color = "" ++ String.join ((s.lines color).map (· ++ "\n")) := by
    rw [text, String.empty_append]
  have hlast := getLast?_lines color s
  rw [htext]
  cases hviolation : s.violations.getLast? with
  | some v =>
    have hline := ((endsInLine_message v).append "Violation: ").paint color .red
    rw [hviolation, Option.map_some, Option.some_or] at hlast
    refine iff_of_false (hline.not_endsBlank_lines "" hlast) fun h => ?_
    rw [h.2.1] at hviolation
    cases hviolation
  | none =>
    rw [hviolation, Option.map_none, Option.none_or] at hlast
    by_cases hunset : s.unsetReferences = 0
    · rw [if_pos hunset, Option.none_or] at hlast
      cases hname : s.series.getLast? with
      | none =>
        have hend : EndsInLine " x ||" := ⟨'|', by decide, by decide⟩
        rw [List.getLast?_eq_none_iff.mp hname, List.isEmpty_nil, if_pos rfl, Option.none_or] at hlast
        refine iff_of_false ((hend.append _).not_endsBlank_lines "" hlast) fun h => ?_
        obtain ⟨-, -, name, hmem, -⟩ := h
        rw [hname] at hmem
        cases hmem
      | some name =>
        have hcons : ¬ s.series.isEmpty := by
          intro hempty
          rw [List.isEmpty_iff.mp hempty] at hname
          cases hname
        rw [if_neg hcons, Option.some_or] at hlast
        rw [endsBlank_seriesLine hlast hname]
        constructor
        · intro h
          exact ⟨hunset, List.getLast?_eq_none_iff.mp hviolation, name, hname, h⟩
        · rintro ⟨-, -, name', hname', h⟩
          rw [hname, Option.mem_some_iff] at hname'
          rwa [hname']
    · have hline := ((endsInLine_toString s.unsetReferences).append "Unset series:     ").paint color .yellow
      rw [if_neg hunset, Option.some_or] at hlast
      exact iff_of_false (hline.not_endsBlank_lines "" hlast) fun h => hunset h.1

end Summary

end ConditionTree
