import ConditionTree.Path
import Mathlib.Data.List.Induction

/-!
# Path texts

A path is found again in its text (`ofText_text`), so that what is printed as a path can be given back to name the
node. The pieces of a text are those of its parts on both sides of a separator (`pieces_append_separator`).
-/

namespace ConditionTree

namespace Text

/-- A text without blanks has none at its ends. -/
theorem trim_eq_self {cs : List Char} (h : ∀ c ∈ cs, isBlank c = false) : trim cs = cs := by
  have hdrop : ∀ {l : List Char}, (∀ c ∈ l, isBlank c = false) → l.dropWhile isBlank = l := by
    intro l hl
    cases l with
    | nil => rfl
    | cons c l => rw [List.dropWhile_cons_of_neg (by simp [hl c (List.mem_cons_self ..)])]
  have hreverse : ∀ c ∈ cs.reverse, isBlank c = false := fun c hc => h c (List.mem_reverse.mp hc)
  rw [trim, hdrop h, hdrop hreverse, List.reverse_reverse]

end Text

namespace Path

/-- The pieces of a text between its separators, trimmed, without the blank ones. -/
def pieces (cs : List Char) : List String :=
  ((cs.splitOnP isSeparator).map Text.trim).filterMap fun piece =>
    if piece.isEmpty then none else some (String.ofList piece)

theorem pieces_append_separator {c : Char} (hc : isSeparator c) (x y : List Char) :
    pieces (x ++ c :: y) = pieces x ++ pieces y := by
  rw [pieces, List.splitOnP_append_cons x y hc, List.map_append, List.filterMap_append]
  rfl

theorem pieces_name (b : Branch) : pieces b.name.toList = [b.name] := by
  cases b <;> decide +kernel

/-- The text of a path without the root's sign. -/
def branchText (p : Path) : List Char :=
  p.flatMap fun b => '.' :: b.name.toList

theorem toList_text (p : Path) : p.text.toList = '$' :: branchText p := by
  rw [text, String.toList_append, String.toList_join, List.flatMap_map]
  simp [branchText]

theorem pieces_branchText (p : Path) : pieces (branchText p) = p.map Branch.name := by
  induction p using List.reverseRecOn with
  | nil => rfl
  | append_singleton p b ih =>
    have hlast : branchText (p ++ [b]) = branchText p ++ '.' :: b.name.toList := by
      simp [branchText]
    rw [hlast, pieces_append_separator rfl, ih, pieces_name, List.map_append]
    rfl

theorem isBlank_of_mem_text {p : Path} {c : Char} (h : c ∈ p.text.toList) :
    Text.isBlank c = false := by
  have hname : ∀ b : Branch, ('.' :: b.name.toList).any Text.isBlank = false := by
    intro b
    cases b <;> rfl
  rw [toList_text, List.mem_cons] at h
  obtain rfl | h := h
  · rfl
  · obtain ⟨b, -, hc⟩ := List.mem_flatMap.mp h
    exact Bool.eq_false_iff.mpr (List.any_eq_false.mp (hname b) c hc)

theorem blank_notMem_text {c : Char} (hc : Text.isBlank c) (p : Path) : c ∉ p.text.toList := fun h => by
  rw [isBlank_of_mem_text h] at hc
  cases hc

theorem segments_text (p : Path) : segments p.text = p.map Branch.name := by
  have hbody : segments p.text = pieces (branchText p) := by
    rw [segments, Text.trim_eq_self fun c hc => isBlank_of_mem_text hc, toList_text]
    rfl
  rw [hbody, pieces_branchText]

theorem mapM_branchOf_name (p : Path) : (p.map Branch.name).mapM branchOf = .ok p := by
  induction p with
  | nil => rfl
  | cons b p ih =>
    have hb : branchOf b.name = .ok b := by rw [branchOf, Branch.ofText?_name]
    rw [List.map_cons, List.mapM_cons, hb, ih]
    rfl

/-- **A path is found again in its text.** -/
theorem ofText_text (p : Path) : ofText p.text = .ok p := by
  rw [ofText, segments_text, mapM_branchOf_name]

end Path

end ConditionTree
