import ConditionTree.CommandLine.Run
import ConditionTree.Proofs.Documents
import ConditionTree.Proofs.Printing

/-!
# Edit commands, and the outcome of any command

What an edit command answers, by what comes of its path and of the edit, and what is seen from outside of a command that
has an answer or has none. The JSON that it gives out is normal, so it is read back as the value that was worked out.
-/

namespace ConditionTree

theorem Condition.isNormal_content (c : Option Condition) : (content c).IsNormal := by
  cases c with
  | none => trivial
  | some c => exact isNormal_toJson c

theorem Document.isNormal_replace {root r : Json} {pointer : Option String} {c : Option Condition}
    (hroot : root.IsNormal) (h : (new root pointer).replace c = .ok r) : r.IsNormal := by
  obtain ⟨ts, -, hset⟩ := replace_eq_ok_iff.mp h
  exact Json.isNormal_setAt? (Condition.isNormal_content c) hroot hset

namespace CommandLine

variable {s : Surroundings} {i : Invocation} {config : Config} {text : String} {v root : Json}

/-! ### Loading -/

theorem loadCondition_eq_ok {c : Option Condition} (htext : s.read i.file = .ok text)
    (hroot : Json5.document? text = some root) (hc : (Document.new root i.pointer).condition = .ok c) :
    loadCondition s i = .ok (Document.new root i.pointer, c) := by
  have hdocument : loadDocument s i = .ok (Document.new root i.pointer) := by
    rw [loadDocument, htext]
    simp only [hroot]
  rw [loadCondition, hdocument, Condition.ok_bind, hc]
  rfl

/-- A file with a printed tree holds this tree, but for the signs of zeros. -/
theorem loadCondition_of_printed {c : Condition} (hc : c.AllFinite)
    (htext : s.read i.file = .ok (jsonText config c.toJson)) (hpointer : i.pointer = none) :
    loadCondition s i = .ok (.new c.toJson none, some c.positiveZeros) := by
  have hroot := (Json5.document?_jsonText config (Condition.isNormal_toJson c)).1
  have hfinite : ∀ t ∈ some c, t.AllFinite := by
    rintro t ⟨⟩
    exact hc
  have hcondition : (Document.new c.toJson none).condition = .ok (some c.positiveZeros) := by
    rw [Document.condition_of_raw (v := c.toJson) rfl]
    exact Document.reading_content hfinite
  rw [← hpointer] at hcondition ⊢
  exact loadCondition_eq_ok htext hroot hcondition

/-! ### The answer -/

section Answer

variable {intent : Intent} {o : EditOptions} {d : Document} {tree : Condition} {path : Path} {new : Option Condition}

theorem answer_of_edit (hconfig : loadConfig s i = .ok config) (hcommand : i.command = .edit intent o) :
    answer s i = edit s i config intent o := by
  rw [answer, hconfig, Condition.ok_bind, hcommand]

theorem edit_of_none (hload : loadCondition s i = .ok (d, none)) :
    edit s i config intent o = .error (.nothingToEdit i.file) := by
  rw [edit, hload, Condition.ok_bind]

variable (hload : loadCondition s i = .ok (d, some tree))
include hload

theorem edit_of_badPlace {e : PathError} (hplace : Path.ofText o.place = .error e) :
    edit s i config intent o = .error (.badPlace e) := by
  rw [edit, hload, Condition.ok_bind, hplace]
  rfl

theorem edit_of_refusal {e : EditError} (hplace : Path.ofText o.place = .ok path)
    (hedit : (Editor.apply ⟨config.editDefaults, ⟨o.session⟩⟩ tree path intent).2 = .error e) :
    edit s i config intent o = .error (.edit intent path e) := by
  rw [edit, hload, Condition.ok_bind, hplace]
  simp only [Except.mapError, Condition.ok_bind, hedit]
  rfl

/-- An edit that succeeds is answered with the change, or with the document that holds the new tree. -/
theorem edit_of_ok {r : Json} (hplace : Path.ofText o.place = .ok path)
    (hedit : (Editor.apply ⟨config.editDefaults, ⟨o.session⟩⟩ tree path intent).2 = .ok new)
    (hreplace : d.replace new = .ok r) :
    edit s i config intent o = .ok
      { content := jsonText config (if o.envelope then (Change.mk new).toJson else r)
        notes := if o.diff then Diff.trees (i.colored s) (some tree) new else "" } := by
  rw [edit, hload, Condition.ok_bind, hplace]
  simp only [Except.mapError, Condition.ok_bind, hedit, replaced, hreplace]
  cases o.envelope <;> rfl

end Answer

/-! ### The outcome -/

/-- Reading the arguments is all that comes before the command. -/
theorem respond_of_run {arguments : List String}
    (h : Request.ofArguments (s.environment configVariable) arguments = .run i) : respond s arguments = run s i := by
  rw [respond, h]

theorem run_eq_of_error {f : Failure} (h : answer s i = .error f) :
    run s i = { code := 1, stderr := errorLine s i f } := by
  rw [run, h]

theorem run_of_error {f : Failure} (h : answer s i = .error f) : (run s i).code = 1 ∧ (run s i).written = none := by
  rw [run_eq_of_error h]
  exact ⟨rfl, rfl⟩

section Emission

variable {a : Answer} (h : answer s i = .ok a)
include h

/-- An answer is printed, with one newline at its end. -/
theorem run_of_printed (houtput : i.output = none) : run s i =
    { code := if a.failure.isSome then 1 else 0
      stdout := Diff.dropNewlines a.content ++ "\n"
      stderr := a.notes ++ (a.failure.map (errorLine s i)).getD "" } := by
  rw [run, h]
  simp only [emit, houtput]

/-- An answer is written to the file that it is meant for. -/
theorem run_of_written {path : String} (houtput : i.output = some path) (hwritable : s.writeError? path = none) :
    run s i =
      { code := if a.failure.isSome then 1 else 0
        stderr := a.notes ++ (a.failure.map (errorLine s i)).getD ""
        written := some (path, endLine a.content) } := by
  rw [run, h]
  simp only [emit, houtput, hwritable]

theorem run_of_unwritable {path : String} {e : FileError} (houtput : i.output = some path)
    (he : s.writeError? path = some e) :
    run s i = { code := 1, stderr := a.notes ++ errorLine s i (.unwritable path e) } := by
  rw [run, h]
  simp only [emit, houtput, he]

end Emission

/-- An output that is named can be written. -/
def Writable (s : Surroundings) (i : Invocation) : Prop :=
  ∀ path ∈ i.output, s.writeError? path = none

theorem exists_of_not_writable (h : ¬ Writable s i) : ∃ path e, i.output = some path ∧ s.writeError? path = some e := by
  unfold Writable at h
  push Not at h
  obtain ⟨path, hpath, hne⟩ := h
  obtain ⟨e, he⟩ := Option.ne_none_iff_exists'.mp hne
  exact ⟨path, e, hpath, he⟩

/-- Only a command with an answer that can be sent succeeds. -/
theorem exists_answer_of_code (h : (run s i).code = 0) : ∃ a, answer s i = .ok a ∧ Writable s i := by
  cases hanswer : answer s i with
  | error f =>
    rw [run_eq_of_error hanswer] at h
    cases h
  | ok a =>
    refine ⟨a, rfl, ?_⟩
    by_contra hwritable
    obtain ⟨path, e, houtput, he⟩ := exists_of_not_writable hwritable
    rw [run_of_unwritable hanswer houtput he] at h
    cases h

/-- A command that succeeds writes its answer to the file that it is given, or prints it. -/
theorem run_of_ok {notes : String} (h : answer s i = .ok { content := text, notes })
    (hwritable : Writable s i) :
    (run s i).code = 0 ∧ (run s i).written = i.output.map (·, endLine text) ∧
      (i.output = none → (run s i).stdout = Diff.dropNewlines text ++ "\n") := by
  cases houtput : i.output with
  | none =>
    rw [run_of_printed h houtput]
    exact ⟨rfl, rfl, fun _ => rfl⟩
  | some path =>
    rw [run_of_written h houtput (hwritable path houtput)]
    exact ⟨rfl, rfl, by simp⟩

end CommandLine

end ConditionTree
