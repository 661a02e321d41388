import ConditionTree.Proofs.Delivery

/-!
# What a command leaves behind

All that can go wrong goes wrong before an answer is sent, so a command that fails prints nothing and writes no file.
The one answer that makes a command fail is the report on a condition that breaks the rules, which is sent first
(`failed_answer`). A command that succeeds sends its answer to one place (`failure_leaves_nothing`).
-/

namespace ConditionTree.CommandLine

variable {s : Surroundings} {i : Invocation} {config : Config} {d : Document} {tree : Condition} {a : Answer}
  {arguments : List String}

/-- The text goes to the output that is named, or else to the terminal, and nothing goes anywhere else. -/
def Outcome.Delivers (o : Outcome) (output : Option String) (text : String) : Prop :=
  match output with
  | none => o.stdout = text ∧ o.written = none
  | some path => o.stdout = "" ∧ o.written = some (path, text)

/-! ### Answers that fail -/

theorem isSome_failure_report : (report i config tree).failure.isSome ↔ tree.validate ≠ [] := by
  unfold report
  cases tree.validate with
  | nil => simp
  | cons v vs => simp

/-- **Only a report fails**, and only on a condition that breaks the rules. -/
theorem failed_answer (h : answer s i = .ok a) (hfailure : a.failure.isSome) :
    ∃ config d tree, i.command = .validate false ∧ loadConfig s i = .ok config ∧
      loadCondition s i = .ok (d, some tree) ∧ tree.validate ≠ [] ∧ a = report i config tree := by
  have hcourse := course_answer s i
  rw [h] at hcourse
  cases hcourse with
  | report hcommand hconfig hload =>
    exact ⟨_, _, _, hcommand, hconfig, hload, isSome_failure_report.mp hfailure, rfl⟩
  | _ => cases hfailure

theorem loadConfig_ne_document {e : DocumentError} : loadConfig s i ≠ .error (.document e) := by
  intro h
  unfold loadConfig at h
  repeat' split at h
  all_goals cases h

theorem loadDocument_ne_document {e : DocumentError} : loadDocument s i ≠ .error (.document e) := by
  intro h
  unfold loadDocument at h
  repeat' split at h
  all_goals cases h

theorem loadCondition_ne_document {e : DocumentError} : loadCondition s i ≠ .error (.document e) := by
  intro h
  unfold loadCondition at h
  cases hdocument : loadDocument s i with
  | error f =>
    rw [hdocument] at h
    cases h
    exact loadDocument_ne_document hdocument
  | ok d =>
    rw [hdocument, Condition.ok_bind] at h
    split at h <;> cases h

/-- The document never refuses to take back what was made of its condition. -/
theorem answer_ne_document (s : Surroundings) (i : Invocation) (e : DocumentError) :
    answer s i ≠ .error (.document e) := by
  intro h
  have hcourse := course_answer s i
  rw [h] at hcourse
  cases hcourse with
  | badSettings hconfig => exact loadConfig_ne_document hconfig
  | badLoad _ hload => exact loadCondition_ne_document hload

/-! ### Answers that are sent -/

theorem endLine_ne_empty (text : String) : endLine text ≠ "" := by
  unfold endLine
  split_ifs with hlast
  · rintro rfl
    cases hlast
  · intro h
    simp at h

theorem code_of_answer (h : answer s i = .ok a) (hwritable : Writable s i) :
    (run s i).code = if a.failure.isSome then 1 else 0 := by
  cases houtput : i.output with
  | none => rw [run_of_printed h houtput]
  | some path => rw [run_of_written h houtput (hwritable path houtput)]

theorem exists_delivers_of_answer (h : answer s i = .ok a) (hwritable : Writable s i) :
    ∃ text, text ≠ "" ∧ (run s i).Delivers i.output text := by
  cases houtput : i.output with
  | none =>
    rw [run_of_printed h houtput]
    exact ⟨_, fun hempty => by simp at hempty, rfl, rfl⟩
  | some path =>
    rw [run_of_written h houtput (hwritable path houtput)]
    exact ⟨endLine a.content, endLine_ne_empty a.content, rfl, rfl⟩

theorem delivers_of_answer (h : answer s i = .ok a) (hwritable : Writable s i)
    (hlast : a.content.toList.getLast? ≠ some '\n') : (run s i).Delivers i.output (a.content ++ "\n") := by
  cases houtput : i.output with
  | none =>
    rw [run_of_printed h houtput, dropNewlines_eq_self_iff.mpr hlast]
    exact ⟨rfl, rfl⟩
  | some path =>
    rw [run_of_written h houtput (hwritable path houtput), endLine_of_getLast? hlast]
    exact ⟨rfl, rfl⟩

/-- The report on a condition that breaks the rules is sent whole. -/
theorem delivers_report (hcommand : i.command = .validate false) (hconfig : loadConfig s i = .ok config)
    (hload : loadCondition s i = .ok (d, some tree)) (hwritable : Writable s i) :
    ((run s i).code = 1 ↔ tree.validate ≠ []) ∧
      (run s i).Delivers i.output ((report i config tree).content ++ "\n") := by
  have ha := answer_of_validate hconfig hcommand hload
  refine ⟨?_, delivers_of_answer ha hwritable getLast?_report⟩
  rw [code_of_answer ha hwritable, ← isSome_failure_report]
  cases (report i config tree).failure.isSome <;> simp

/-! ### Every command line -/

theorem failed_run (hcode : (run s i).code = 1) : ((run s i).stdout = "" ∧ (run s i).written = none) ∨
    ∃ config d tree, i.command = .validate false ∧ loadConfig s i = .ok config ∧
      loadCondition s i = .ok (d, some tree) ∧ tree.validate ≠ [] ∧ Writable s i ∧
      (run s i).Delivers i.output ((report i config tree).content ++ "\n") := by
  cases ha : answer s i with
  | error f =>
    rw [run_eq_of_error ha]
    exact .inl ⟨rfl, rfl⟩
  | ok a =>
    by_cases hwritable : Writable s i
    · have hfailure : a.failure.isSome := by
        rw [code_of_answer ha hwritable] at hcode
        by_contra h
        rw [if_neg h] at hcode
        cases hcode
      obtain ⟨config, d, tree, hcommand, hconfig, hload, hbroken, -⟩ := failed_answer ha hfailure
      exact .inr ⟨config, d, tree, hcommand, hconfig, hload, hbroken, hwritable,
        (delivers_report hcommand hconfig hload hwritable).2⟩
    · obtain ⟨path, e, houtput, he⟩ := exists_of_not_writable hwritable
      rw [run_of_unwritable ha houtput he]
      exact .inl ⟨rfl, rfl⟩

theorem delivered_run (hcode : (run s i).code = 0) : ∃ text, text ≠ "" ∧ (run s i).Delivers i.output text := by
  obtain ⟨a, ha, hwritable⟩ := exists_answer_of_code hcode
  exact exists_delivers_of_answer ha hwritable

/-- **A command that fails leaves nothing behind**, but for plain `validate` on a condition that breaks the rules, which
has given out the whole report if it could. With settings, a condition and an output that are all right, `validate`
fails exactly on the conditions that break the rules. A command that succeeds gives something out in one place: the
output that is named, or else the terminal. A document that was read never refuses the result. -/
theorem failure_leaves_nothing (s : Surroundings) (arguments : List String) :
    ((respond s arguments).code = 1 → ((respond s arguments).stdout = "" ∧ (respond s arguments).written = none) ∨
      ∃ i config d tree, Request.ofArguments (s.environment configVariable) arguments = .run i ∧
        i.command = .validate false ∧ loadConfig s i = .ok config ∧ loadCondition s i = .ok (d, some tree) ∧
        tree.validate ≠ [] ∧ Writable s i ∧
        (respond s arguments).Delivers i.output ((report i config tree).content ++ "\n")) ∧
    (∀ i config d tree, Request.ofArguments (s.environment configVariable) arguments = .run i →
      i.command = .validate false → loadConfig s i = .ok config → loadCondition s i = .ok (d, some tree) →
      Writable s i → ((respond s arguments).code = 1 ↔ tree.validate ≠ []) ∧
        (respond s arguments).Delivers i.output ((report i config tree).content ++ "\n")) ∧
    ((respond s arguments).code = 0 → ∃ output text, text ≠ "" ∧ (respond s arguments).Delivers output text ∧
      ∀ i, Request.ofArguments (s.environment configVariable) arguments = .run i → output = i.output) ∧
    ∀ i e, answer s i ≠ .error (.document e) := by
  refine ⟨fun hcode => ?_, fun i config d tree hargs hcommand hconfig hload hwritable => ?_, fun hcode => ?_,
    answer_ne_document s⟩
  · cases hargs : Request.ofArguments (s.environment configVariable) arguments with
    | run i =>
      rw [respond_of_run hargs] at hcode ⊢
      obtain hsilent | ⟨config, d, tree, hreport⟩ := failed_run hcode
      · exact .inl hsilent
      · exact .inr ⟨i, config, d, tree, rfl, hreport⟩
    | _ =>
      rw [respond, hargs] at hcode
      cases hcode
  · rw [respond_of_run hargs]
    exact delivers_report hcommand hconfig hload hwritable
  · cases hargs : Request.ofArguments (s.environment configVariable) arguments with
    | run i =>
      rw [respond_of_run hargs] at hcode ⊢
      obtain ⟨text, hne, htext⟩ := delivered_run hcode
      exact ⟨i.output, text, hne, htext, fun i' hi => by rw [Request.run.inj hi]⟩
    | version =>
      rw [respond, hargs]
      exact ⟨none, versionText, by decide, ⟨rfl, rfl⟩, fun i hi => Request.noConfusion hi⟩
    | help =>
      rw [respond, hargs]
      exact ⟨none, helpText, by decide, ⟨rfl, rfl⟩, fun i hi => Request.noConfusion hi⟩
    | misuse =>
      rw [respond, hargs] at hcode
      cases hcode

/-- A group right inside another one. -/
def nestedGroups : Condition :=
  .group .and (.group .or (.comparison .equal (.reference none) (.number .zero)))

def checkInto (output : Option String) : Invocation :=
  ⟨.validate false, "a", none, none, output, .text, .auto⟩

/-- The report goes to the file, and the command fails. -/
theorem nested_groups_reported_in_file :
    Request.ofArguments none ["validate", "a", "-o", "out"] = .run (checkInto (some "out")) ∧
    (respond (holding (jsonText {} nestedGroups.toJson)) ["validate", "a", "-o", "out"]).code = 1 ∧
    (respond (holding (jsonText {} nestedGroups.toJson)) ["validate", "a", "-o", "out"]).stdout = "" ∧
    (respond (holding (jsonText {} nestedGroups.toJson)) ["validate", "a", "-o", "out"]).written =
      some ("out", "$: group directly contains another group\n") := by
  have hargs : Request.ofArguments none ["validate", "a", "-o", "out"] = .run (checkInto (some "out")) := by
    decide +kernel
  have hload : loadCondition (holding (jsonText {} nestedGroups.toJson)) (checkInto (some "out")) =
      .ok (.new nestedGroups.toJson none, some nestedGroups) :=
    loadCondition_of_printed ⟨trivial, rfl⟩ rfl rfl
  obtain ⟨-, hchecked, -⟩ :=
    failure_leaves_nothing (holding (jsonText {} nestedGroups.toJson)) ["validate", "a", "-o", "out"]
  obtain ⟨hcode, hstdout, hwritten⟩ := hchecked _ {} _ nestedGroups hargs rfl rfl hload fun _ _ => rfl
  have hbroken : nestedGroups.validate ≠ [] := by decide
  exact ⟨hargs, hcode.mpr hbroken, hstdout, hwritten⟩

/-- There is one file, which holds a printed tree. -/
def oneFile : Surroundings :=
  ⟨fun _ => none, fun path => if path = "a" then .ok newlineText else .error .notFound, fun _ => none⟩

/-- Settings that cannot be read make `validate` fail on a condition that breaks no rule. -/
theorem check_fails_for_missing_settings :
    Request.ofArguments none ["validate", "a", "--config", "missing"] =
      .run { checkInto none with config := some "missing" } ∧
    (∃ d, loadCondition oneFile { checkInto none with config := some "missing" } = .ok (d, some newlineTree)) ∧
    newlineTree.validate = [] ∧ Writable oneFile { checkInto none with config := some "missing" } ∧
    (respond oneFile ["validate", "a", "--config", "missing"]).code = 1 := by
  have hargs : Request.ofArguments none ["validate", "a", "--config", "missing"] =
      .run { checkInto none with config := some "missing" } := by
    decide +kernel
  refine ⟨hargs, ⟨_, loadCondition_of_printed (c := newlineTree) ⟨trivial, rfl⟩ rfl rfl⟩, rfl, fun _ _ => rfl, ?_⟩
  have hconfig : loadConfig oneFile { checkInto none with config := some "missing" } =
      .error (.configUnreadable "missing" .notFound) :=
    rfl
  rw [respond_of_run (s := oneFile) hargs, run_eq_of_error (answer_of_badSettings hconfig)]

end ConditionTree.CommandLine
