import ConditionTree.Proofs.Endings

/-!
# Lines

A text of whole lines is cut after each newline, and its lines are found again unless there is a newline inside of one
(`lines?_join`). The lines of a difference end after other characters, too. Each of them has at most one newline, at its
end (`newline_of_mem_lines`), and together they are the text (`join_lines`).
-/

namespace ConditionTree

namespace Text

/-- The pieces of a text, each of which ends with the first newline in it. -/
def cut : List Char → List (List Char)
  | [] => []
  | c :: rest =>
    if c = '\n' then [c] :: cut rest
    else
      match cut rest with
      | [] => [[c]]
      | line :: more => (c :: line) :: more

/-- What stands on a line that is ended by a newline. -/
def wholeLine? (line : List Char) : Option String :=
  if line.getLast? = some '\n' then some (String.ofList line.dropLast) else none

/-- What stands on the lines of a text, if the last of them is ended by a newline as well. -/
def lines? (text : String) : Option (List String) :=
  (cut text.toList).mapM wholeLine?

variable {line rest cs : List Char}

theorem cut_append_newline (h : '\n' ∉ line) (rest : List Char) :
    cut (line ++ '\n' :: rest) = (line ++ ['\n']) :: cut rest := by
  induction line with
  | nil => rw [List.nil_append, cut, if_pos rfl]; rfl
  | cons c line ih =>
    rw [List.mem_cons, not_or] at h
    obtain ⟨hc, hline⟩ := h
    rw [List.cons_append, cut, if_neg (Ne.symm hc), ih hline]
    rfl

theorem wholeLine?_append_newline (line : String) : wholeLine? (line.toList ++ ['\n']) = some line := by
  rw [wholeLine?, if_pos List.getLast?_concat, List.dropLast_concat, String.ofList_toList]

/-- **Lines without a newline in them are found again in their text.** -/
theorem lines?_join {lines : List String} (h : ∀ line ∈ lines, '\n' ∉ line.toList) :
    lines? (String.join (lines.map (· ++ "\n"))) = some lines := by
  induction lines with
  | nil => rfl
  | cons line lines ih =>
    have htext : (String.join ((line :: lines).map (· ++ "\n"))).toList =
        line.toList ++ '\n' :: (String.join (lines.map (· ++ "\n"))).toList := by
      simp [String.toList_append]
    have hrest := ih fun l hl => h l (List.mem_cons_of_mem line hl)
    rw [lines?] at hrest
    rw [lines?, htext, cut_append_newline (h line List.mem_cons_self), List.mapM_cons, wholeLine?_append_newline, hrest]
    rfl

end Text

namespace Diff

variable {cs line : List Char} {text l : String}

/-! ### The lines of a difference -/

theorem flatten_splitLines (cs : List Char) : (splitLines cs).flatten = cs := by
  fun_induction splitLines cs <;> simp_all

/-- **The lines of a text are the text.** -/
theorem join_lines (text : String) : String.join (lines text) = text := by
  apply String.toList_injective
  rw [lines, String.toList_join, List.flatMap_map]
  simp [List.flatMap_id', flatten_splitLines]

/-- There is at most one newline in a line, and it is at the end. -/
theorem newline_of_mem_splitLines (h : line ∈ splitLines cs) :
    ∃ body, '\n' ∉ body ∧ (line = body ∨ line = body ++ ['\n']) := by
  fun_induction splitLines cs generalizing line with
  | case1 => cases h
  | case2 rest ih =>
    rcases List.mem_cons.mp h with rfl | h
    · exact ⟨['\r'], by decide, .inr rfl⟩
    · exact ih h
  | case3 c rest _ hc ih =>
    rcases List.mem_cons.mp h with rfl | h
    · rcases hc with rfl | rfl
      · exact ⟨['\r'], by decide, .inl rfl⟩
      · exact ⟨[], List.not_mem_nil, .inr rfl⟩
    · exact ih h
  | case4 c rest _ hc hrest ih =>
    rw [List.mem_singleton.mp h]
    exact ⟨[c], fun hmem => hc (.inr (List.mem_singleton.mp hmem).symm), .inl rfl⟩
  | case5 c rest _ hc first more hrest ih =>
    rw [hrest] at ih
    rcases List.mem_cons.mp h with rfl | h
    · obtain ⟨body, hbody, hfirst⟩ := ih List.mem_cons_self
      refine ⟨c :: body, ?_, hfirst.imp (congrArg (c :: ·)) (congrArg (c :: ·))⟩
      rw [List.mem_cons, not_or]
      exact ⟨fun heq => hc (.inr heq.symm), hbody⟩
    · exact ih (List.mem_cons_of_mem first h)

/-- Where newlines are all that ends a line, every line has one. -/
theorem getLast?_of_mem_splitLines (hreturn : '\r' ∉ cs) (hlast : ∀ c ∈ cs.getLast?, c = '\n')
    (h : line ∈ splitLines cs) : line.getLast? = some '\n' := by
  have hrest : ∀ {c : Char} {rest : List Char}, (∀ x ∈ (c :: rest).getLast?, x = '\n') →
      ∀ x ∈ rest.getLast?, x = '\n' := fun {c rest} hlast x hx =>
    hlast x (by rw [List.getLast?_cons, Option.mem_def.mp hx]; rfl)
  fun_induction splitLines cs generalizing line with
  | case1 => cases h
  | case2 rest ih => exact absurd List.mem_cons_self hreturn
  | case3 c rest _ hc ih =>
    rw [List.mem_cons, not_or] at hreturn
    rcases List.mem_cons.mp h with rfl | h
    · rw [List.getLast?_singleton, hc.resolve_left (Ne.symm hreturn.1)]
    · exact ih hreturn.2 (hrest hlast) h
  | case4 c rest _ hc hnil ih =>
    -- the only line has no end, so it would not be the last one
    have hempty := flatten_splitLines rest
    rw [hnil, List.flatten_nil] at hempty
    rw [← hempty] at hlast
    exact absurd (.inr (hlast c rfl)) hc
  | case5 c rest _ hc first more hsplit ih =>
    rw [List.mem_cons, not_or] at hreturn
    rw [hsplit] at ih
    rcases List.mem_cons.mp h with rfl | h
    · rw [List.getLast?_cons, ih hreturn.2 (hrest hlast) List.mem_cons_self]
      rfl
    · exact ih hreturn.2 (hrest hlast) (List.mem_cons_of_mem first h)

/-- **What is dropped of a line is a newline at its end**, if there is one. -/
theorem newline_of_mem_lines (h : l ∈ lines text) :
    '\n' ∉ (dropNewlines l).toList ∧ (l = dropNewlines l ∨ l = dropNewlines l ++ "\n") := by
  obtain ⟨line, hline, rfl⟩ := List.mem_map.mp h
  obtain ⟨body, hbody, hform⟩ := newline_of_mem_splitLines hline
  have hlast : (String.ofList body).toList.getLast? ≠ some '\n' := fun hlast => by
    rw [String.toList_ofList] at hlast
    exact hbody (List.mem_of_getLast? hlast)
  have hdrop : dropNewlines (String.ofList body) = String.ofList body := dropNewlines_eq_self_iff.mpr hlast
  rcases hform with rfl | rfl
  · rw [hdrop, String.toList_ofList]
    exact ⟨hbody, .inl rfl⟩
  · have happend : String.ofList (body ++ ['\n']) = String.ofList body ++ "\n" := String.ofList_append
    rw [happend, dropNewlines_append_newline, hdrop, String.toList_ofList]
    exact ⟨hbody, .inr rfl⟩

/-- A text of whole lines is had back from what stands on them, if only newlines end its lines. -/
theorem join_bodies (hreturn : '\r' ∉ text.toList) (hlast : ∀ c ∈ text.toList.getLast?, c = '\n') :
    String.join (((lines text).map dropNewlines).map (· ++ "\n")) = text := by
  have hbody : ∀ l ∈ lines text, dropNewlines l ++ "\n" = l := fun l hl => by
    obtain ⟨hnewline, hsame | hended⟩ := newline_of_mem_lines hl
    · -- the line has an end, which was not dropped
      obtain ⟨line, hline, rfl⟩ := List.mem_map.mp hl
      have hend := getLast?_of_mem_splitLines hreturn hlast hline
      rw [← hsame, String.toList_ofList] at hnewline
      exact absurd (List.mem_of_getLast? hend) hnewline
    · exact hended.symm
  have hlines : (lines text).map (fun l => dropNewlines l ++ "\n") = lines text := by
    simpa using List.map_congr_left hbody
  rw [List.map_map]
  exact (congrArg String.join hlines).trans (join_lines text)

end Diff

end ConditionTree
