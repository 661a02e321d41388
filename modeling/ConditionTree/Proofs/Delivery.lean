import ConditionTree.Proofs.Arguments
import ConditionTree.Proofs.Courses

/-!
# Printed or written

An answer goes to the terminal or, if an output is named, to a file. Both get the same text unless it ends in an empty
line. Of all that a command can answer only the summary as text can end so, through the name of a series
(`endsBlank_content`): then the file keeps the empty line and the terminal does not
(`output_file_holds_what_is_printed`).
-/

namespace ConditionTree.CommandLine

variable {s : Surroundings} {i : Invocation} {config : Config} {c : Option Condition} {tree : Condition} {a : Answer}

/-! ### How each answer ends -/

theorem not_endsBlank_jsonText (config : Config) (v : Json) : ¬ EndsBlank (jsonText config v) :=
  not_endsBlank (Json5.getLast?_jsonText config v)

theorem not_endsBlank_view : ¬ EndsBlank (view s i config c) := by
  unfold view
  split
  · exact not_endsBlank_jsonText config _
  · exact Condition.not_endsBlank_append_outline _ _ _
  · decide

/-- A report ends in JSON, in `ok`, or in the message on the last broken rule. -/
theorem getLast?_report : (report i config tree).content.toList.getLast? ≠ some '\n' := by
  unfold report
  dsimp only
  split
  · exact Json5.getLast?_jsonText config _
  · cases hlast : tree.validate.getLast? with
    | none =>
      rw [List.getLast?_eq_none_iff.mp hlast, List.isEmpty_nil, if_pos rfl]
      decide
    | some v =>
      have hcons : ¬ tree.validate.isEmpty := by
        intro hempty
        rw [List.isEmpty_iff.mp hempty] at hlast
        cases hlast
      have hmessage : (tree.validate.map Violation.message).getLast? = some v.message := by
        rw [List.getLast?_map, hlast, Option.map_some]
      rw [if_neg hcons]
      exact ((endsInLine_message v).intercalate "\n" hmessage).getLast?_ne

/-- The command prints the summary of a tree as text, and the list of the series at its end ends in a newline. -/
def SummaryEndsBlank (s : Surroundings) (i : Invocation) : Prop :=
  i.command = .info ∧ i.format = .text ∧
    ∃ d tree, loadCondition s i = .ok (d, some tree) ∧ (Summary.of tree).EndsInNewline

theorem endsBlank_info {d : Document} (hcommand : i.command = .info) (hload : loadCondition s i = .ok (d, some tree)) :
    EndsBlank (info s i config tree) ↔ SummaryEndsBlank s i := by
  unfold info
  cases hformat : i.format with
  | json =>
    refine iff_of_false (not_endsBlank_jsonText config _) fun h => ?_
    have hformat' := h.2.1
    rw [hformat] at hformat'
    cases hformat'
  | text =>
    dsimp only
    rw [Summary.endsBlank_text]
    constructor
    · intro h
      exact ⟨hcommand, hformat, d, tree, hload, h⟩
    · rintro ⟨-, -, d', tree', hload', h⟩
      rw [hload] at hload'
      cases hload'
      exact h

/-- **Only a summary ends in an empty line.** -/
theorem endsBlank_content (h : answer s i = .ok a) : EndsBlank a.content ↔ SummaryEndsBlank s i := by
  have hcourse := course_answer s i
  rw [h] at hcourse
  -- for every other command both sides are false
  have hother : ∀ {text : String} {command : Command}, i.command = command → command ≠ .info → ¬ EndsBlank text →
      (EndsBlank text ↔ SummaryEndsBlank s i) :=
    fun hcommand hne htext => iff_of_false htext fun hsummary => hne (hcommand.symm.trans hsummary.1)
  cases hcourse with
  | info hcommand _ hload => exact endsBlank_info hcommand hload
  | view hcommand => exact hother hcommand Command.noConfusion not_endsBlank_view
  | nothingToCheck hcommand => exact hother hcommand Command.noConfusion (by decide)
  | report hcommand => exact hother hcommand Command.noConfusion (not_endsBlank getLast?_report)
  | fix hcommand => exact hother hcommand Command.noConfusion (not_endsBlank_jsonText _ _)
  | edit hcommand => exact hother hcommand Command.noConfusion (not_endsBlank_jsonText _ _)

/-! ### The same command with an output -/

theorem answer_sendTo (s : Surroundings) (i : Invocation) (path : String) :
    answer s { i with output := some path } = answer s i := rfl

/-- A command that prints something has an answer. -/
theorem exists_answer_of_stdout (h : (run s i).stdout ≠ "") : ∃ a, answer s i = .ok a := by
  cases hanswer : answer s i with
  | ok a => exact ⟨a, rfl⟩
  | error f =>
    rw [run_eq_of_error hanswer] at h
    exact absurd rfl h

/-- **What is printed and what is written.** Take a command line that names no output and prints something. Naming one
that can be written, in one argument or in two, asks for the same otherwise. Whatever command line asks for that ends
with the same code, prints nothing, and writes what was printed, but for the newlines at the end: these are the same
too, unless the command prints a summary as text whose list of series ends in a newline. -/
theorem output_file_holds_what_is_printed {arguments : List String} {path : String}
    (hargs : Request.ofArguments (s.environment configVariable) arguments = .run i) (hnone : i.output = none)
    (hprints : (respond s arguments).stdout ≠ "") (hpath : path ≠ "") (hwritable : s.writeError? path = none) :
    Request.ofArguments (s.environment configVariable) (("--output=" ++ path) :: arguments) =
      .run { i with output := some path } ∧
    (Token.ofArgument path = .word path →
      Request.ofArguments (s.environment configVariable) ("-o" :: path :: arguments) =
        .run { i with output := some path }) ∧
    ∀ arguments', Request.ofArguments (s.environment configVariable) arguments' = .run { i with output := some path } →
      (respond s arguments').code = (respond s arguments).code ∧ (respond s arguments').stdout = "" ∧
      (respond s arguments').stderr = (respond s arguments).stderr ∧
      ∃ text, (respond s arguments').written = some (path, text) ∧
        Diff.dropNewlines text = Diff.dropNewlines (respond s arguments).stdout ∧
        (text = (respond s arguments).stdout ↔ ¬ SummaryEndsBlank s i) := by
  refine ⟨ofArguments_attached hargs hnone hpath, ofArguments_separate hargs hnone hpath, fun arguments' hargs' => ?_⟩
  rw [respond_of_run hargs] at hprints ⊢
  obtain ⟨a, ha⟩ := exists_answer_of_stdout hprints
  have ha' : answer s { i with output := some path } = .ok a := (answer_sendTo s i path).trans ha
  rw [respond_of_run hargs', run_of_printed ha hnone, run_of_written ha' rfl hwritable]
  refine ⟨rfl, rfl, rfl, endLine a.content, rfl, ?_, ?_⟩
  · rw [dropNewlines_endLine, dropNewlines_append_newline, dropNewlines_dropNewlines]
  · rw [endLine_eq_iff, endsBlank_content ha]

/-- A series with a newline at the end of its name is above zero. -/
def newlineTree : Condition :=
  .comparison .greater (.reference (some "a\n")) (.number .zero)

def newlineText : String :=
  jsonText {} newlineTree.toJson

def summarize (format : OutputFormat) : Invocation :=
  ⟨.info, "a", none, none, none, format, .auto⟩

theorem load_newlineText (format : OutputFormat) : loadCondition (holding newlineText) (summarize format) =
    .ok (.new newlineTree.toJson none, some newlineTree) :=
  loadCondition_of_printed ⟨trivial, rfl⟩ rfl rfl

theorem answer_summarize (format : OutputFormat) : answer (holding newlineText) (summarize format) =
    .ok { content := info (holding newlineText) (summarize format) {} newlineTree } :=
  answer_of_info rfl rfl (load_newlineText format)

/-- The summary of this tree as JSON is written as it is printed. -/
theorem json_summary_written_as_printed :
    Request.ofArguments none ["info", "a", "--format", "json"] = .run (summarize .json) ∧
    (respond (holding newlineText) ["info", "a", "--format", "json"]).stdout ≠ "" ∧
    (respond (holding newlineText) ["-o", "out", "info", "a", "--format", "json"]).written =
      some ("out", (respond (holding newlineText) ["info", "a", "--format", "json"]).stdout) := by
  have hargs : Request.ofArguments none ["info", "a", "--format", "json"] = .run (summarize .json) := by
    decide +kernel
  have hprints : (respond (holding newlineText) ["info", "a", "--format", "json"]).stdout ≠ "" := by
    rw [respond_of_run hargs, run_of_printed (answer_summarize .json) rfl]
    intro h
    simp at h
  have hpath : "out" ≠ "" := by decide
  obtain ⟨-, hseparate, hsame⟩ :=
    output_file_holds_what_is_printed (s := holding newlineText) hargs rfl hprints hpath rfl
  obtain ⟨-, -, -, text, hwritten, -, htext⟩ := hsame _ (hseparate (by decide))
  have hformat : ¬ SummaryEndsBlank (holding newlineText) (summarize .json) := fun h => nomatch h.2.1
  exact ⟨hargs, hprints, hwritten.trans (by rw [htext.mpr hformat])⟩

/-- Its summary as text is not: the file has an empty line at the end, which the terminal does not get. -/
theorem series_newline_kept_in_file_only :
    (respond (holding newlineText) ["info", "a", "-o", "out"]).code =
        (respond (holding newlineText) ["info", "a"]).code ∧
      (respond (holding newlineText) ["info", "a"]).stdout ≠ "" ∧
      ∃ text, (respond (holding newlineText) ["info", "a", "-o", "out"]).written = some ("out", text) ∧
        text ≠ (respond (holding newlineText) ["info", "a"]).stdout := by
  have hprint : Request.ofArguments none ["info", "a"] = .run (summarize .text) := by decide +kernel
  have hwrite : Request.ofArguments none ["info", "a", "-o", "out"] =
      .run { summarize .text with output := some "out" } := by
    decide +kernel
  have hblank : EndsBlank (info (holding newlineText) (summarize .text) {} newlineTree) :=
    (endsBlank_info rfl (load_newlineText .text)).mpr ⟨rfl, rfl, _, _, load_newlineText .text, rfl, rfl, "a\n", rfl, rfl⟩
  have ha := answer_summarize .text
  rw [respond_of_run (s := holding newlineText) hprint, respond_of_run (s := holding newlineText) hwrite,
    run_of_printed ha rfl, run_of_written ((answer_sendTo _ _ "out").trans ha) rfl rfl]
  refine ⟨rfl, ?_, _, rfl, fun h => endLine_eq_iff.mp h hblank⟩
  intro h
  simp at h

end ConditionTree.CommandLine
