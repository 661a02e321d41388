import ConditionTree.Proofs.Commands

/-!
# The courses that a command can take

A command loads its settings and then its document, and goes its own way from there. `Course` has one rule for each way
in which it can end, with what is known at this end, and every command takes one of them (`course_answer`). What is
said of all commands is said rule by rule. There is no rule for a document that cannot take the condition back: where a
condition was read one can be written (`Document.exists_replace_of_condition`).
-/

namespace ConditionTree.CommandLine

variable {s : Surroundings} {i : Invocation} {config : Config} {d : Document} {c : Option Condition} {tree : Condition}
  {f : Failure}

/-! ### Loading -/

theorem loadDocument_eq_ok_iff : loadDocument s i = .ok d ↔
    ∃ text root, s.read i.file = .ok text ∧ Json5.document? text = some root ∧ d = .new root i.pointer := by
  unfold loadDocument
  cases hread : s.read i.file with
  | error e => simp
  | ok text =>
    cases hroot : Json5.document? text with
    | none => simp [hroot]
    | some root => simp [hroot, eq_comm]

theorem loadCondition_eq_ok_iff : loadCondition s i = .ok (d, c) ↔
    ∃ text root, s.read i.file = .ok text ∧ Json5.document? text = some root ∧ d = .new root i.pointer ∧
      d.condition = .ok c := by
  constructor
  · intro h
    rw [loadCondition] at h
    obtain ⟨d', hdocument, h⟩ := Condition.bind_eq_ok.mp h
    obtain ⟨text, root, htext, hroot, rfl⟩ := loadDocument_eq_ok_iff.mp hdocument
    split at h
    · rename_i c' hc
      cases h
      exact ⟨text, root, htext, hroot, rfl, hc⟩
    · cases h
  · rintro ⟨text, root, htext, hroot, rfl, hc⟩
    exact loadCondition_eq_ok htext hroot hc

/-- The document takes a condition back wherever it held one. -/
theorem exists_replace_of_load (hload : loadCondition s i = .ok (d, c)) (new : Option Condition) :
    ∃ r, d.replace new = .ok r := by
  obtain ⟨_, _, -, -, -, hc⟩ := loadCondition_eq_ok_iff.mp hload
  exact Document.exists_replace_of_condition hc new

/-! ### Each command -/

theorem answer_of_badSettings (h : loadConfig s i = .error f) : answer s i = .error f := by
  rw [answer, h]
  rfl

section Loaded

variable (hconfig : loadConfig s i = .ok config)
include hconfig

theorem answer_of_badLoad (h : loadCondition s i = .error f) : answer s i = .error f := by
  rw [answer, hconfig, Condition.ok_bind]
  cases i.command with
  | edit intent o =>
    dsimp only
    rw [edit, h]
    rfl
  | _ =>
    rw [h]
    rfl

theorem answer_of_view (hcommand : i.command = .view) (hload : loadCondition s i = .ok (d, c)) :
    answer s i = .ok { content := view s i config c } := by
  rw [answer, hconfig, Condition.ok_bind, hcommand]
  dsimp only
  rw [hload]
  rfl

theorem answer_of_info (hcommand : i.command = .info) (hload : loadCondition s i = .ok (d, some tree)) :
    answer s i = .ok { content := info s i config tree } := by
  rw [answer, hconfig, Condition.ok_bind, hcommand]
  dsimp only
  rw [hload]
  rfl

theorem answer_of_info_none (hcommand : i.command = .info) (hload : loadCondition s i = .ok (d, none)) :
    answer s i = .error (.noCondition i.file) := by
  rw [answer, hconfig, Condition.ok_bind, hcommand]
  dsimp only
  rw [hload]
  rfl

theorem answer_of_validate_none {fix : Bool} (hcommand : i.command = .validate fix)
    (hload : loadCondition s i = .ok (d, none)) : answer s i = .ok { content := "(no condition)" } := by
  rw [answer, hconfig, Condition.ok_bind, hcommand]
  dsimp only
  rw [hload]
  rfl

theorem answer_of_validate (hcommand : i.command = .validate false) (hload : loadCondition s i = .ok (d, some tree)) :
    answer s i = .ok (report i config tree) := by
  rw [answer, hconfig, Condition.ok_bind, hcommand]
  dsimp only
  rw [hload]
  rfl

theorem answer_of_fix {r : Json} (hcommand : i.command = .validate true)
    (hload : loadCondition s i = .ok (d, some tree)) (hr : d.replace (some tree.flatten) = .ok r) :
    answer s i = .ok { content := jsonText config r } := by
  rw [answer, hconfig, Condition.ok_bind, hcommand]
  dsimp only
  rw [hload]
  simp only [Condition.ok_bind, if_true, replaced, hr]
  rfl

end Loaded

/-! ### Every command -/

/-- How a command can end, with an answer or without one. -/
inductive Course (s : Surroundings) (i : Invocation) : Except Failure Answer → Prop
  | badSettings {f : Failure} (h : loadConfig s i = .error f) : Course s i (.error f)
  | badLoad {config : Config} {f : Failure} (hconfig : loadConfig s i = .ok config)
    (h : loadCondition s i = .error f) : Course s i (.error f)
  | view {config : Config} {d : Document} {c : Option Condition} (hcommand : i.command = .view)
    (hconfig : loadConfig s i = .ok config) (hload : loadCondition s i = .ok (d, c)) :
    Course s i (.ok { content := view s i config c })
  | info {config : Config} {d : Document} {tree : Condition} (hcommand : i.command = .info)
    (hconfig : loadConfig s i = .ok config) (hload : loadCondition s i = .ok (d, some tree)) :
    Course s i (.ok { content := info s i config tree })
  | noCondition {config : Config} {d : Document} (hcommand : i.command = .info)
    (hconfig : loadConfig s i = .ok config) (hload : loadCondition s i = .ok (d, none)) :
    Course s i (.error (.noCondition i.file))
  | nothingToCheck {config : Config} {d : Document} {fix : Bool} (hcommand : i.command = .validate fix)
    (hconfig : loadConfig s i = .ok config) (hload : loadCondition s i = .ok (d, none)) :
    Course s i (.ok { content := "(no condition)" })
  | report {config : Config} {d : Document} {tree : Condition} (hcommand : i.command = .validate false)
    (hconfig : loadConfig s i = .ok config) (hload : loadCondition s i = .ok (d, some tree)) :
    Course s i (.ok (report i config tree))
  | fix {config : Config} {d : Document} {tree : Condition} {r : Json} (hcommand : i.command = .validate true)
    (hconfig : loadConfig s i = .ok config) (hload : loadCondition s i = .ok (d, some tree))
    (hr : d.replace (some tree.flatten) = .ok r) : Course s i (.ok { content := jsonText config r })
  | nothingToEdit {config : Config} {d : Document} {intent : Intent} {o : EditOptions}
    (hcommand : i.command = .edit intent o) (hconfig : loadConfig s i = .ok config)
    (hload : loadCondition s i = .ok (d, none)) : Course s i (.error (.nothingToEdit i.file))
  | badPlace {intent : Intent} {o : EditOptions} {e : PathError} (hcommand : i.command = .edit intent o)
    (hplace : Path.ofText o.place = .error e) : Course s i (.error (.badPlace e))
  | refusal {config : Config} {d : Document} {tree : Condition} {intent : Intent} {o : EditOptions} {path : Path}
    {e : EditError} (hcommand : i.command = .edit intent o) (hconfig : loadConfig s i = .ok config)
    (hload : loadCondition s i = .ok (d, some tree)) (hplace : Path.ofText o.place = .ok path)
    (hedit : (Editor.apply ⟨config.editDefaults, ⟨o.session⟩⟩ tree path intent).2 = .error e) :
    Course s i (.error (.edit intent path e))
  | edit {config : Config} {d : Document} {tree : Condition} {intent : Intent} {o : EditOptions} {path : Path}
    {new : Option Condition} {r : Json} (hcommand : i.command = .edit intent o) (hconfig : loadConfig s i = .ok config)
    (hload : loadCondition s i = .ok (d, some tree)) (hplace : Path.ofText o.place = .ok path)
    (hedit : (Editor.apply ⟨config.editDefaults, ⟨o.session⟩⟩ tree path intent).2 = .ok new)
    (hr : d.replace new = .ok r) :
    Course s i (.ok
      { content := jsonText config (if o.envelope then (Change.mk new).toJson else r)
        notes := if o.diff then Diff.trees (i.colored s) (some tree) new else "" })

theorem course_edit {intent : Intent} {o : EditOptions} (hcommand : i.command = .edit intent o)
    (hconfig : loadConfig s i = .ok config) (hload : loadCondition s i = .ok (d, c)) :
    Course s i (edit s i config intent o) := by
  cases c with
  | none =>
    rw [edit_of_none hload]
    exact .nothingToEdit hcommand hconfig hload
  | some tree =>
    cases hplace : Path.ofText o.place with
    | error e =>
      rw [edit_of_badPlace hload hplace]
      exact .badPlace hcommand hplace
    | ok path =>
      cases hedit : (Editor.apply ⟨config.editDefaults, ⟨o.session⟩⟩ tree path intent).2 with
      | error e =>
        rw [edit_of_refusal hload hplace hedit]
        exact .refusal hcommand hconfig hload hplace hedit
      | ok new =>
        obtain ⟨r, hr⟩ := exists_replace_of_load hload new
        rw [edit_of_ok hload hplace hedit hr]
        exact .edit hcommand hconfig hload hplace hedit hr

/-- **Every command takes one of the courses.** -/
theorem course_answer (s : Surroundings) (i : Invocation) : Course s i (answer s i) := by
  cases hconfig : loadConfig s i with
  | error f =>
    rw [answer_of_badSettings hconfig]
    exact .badSettings hconfig
  | ok config =>
    cases hload : loadCondition s i with
    | error f =>
      rw [answer_of_badLoad hconfig hload]
      exact .badLoad hconfig hload
    | ok loaded =>
      obtain ⟨d, c⟩ := loaded
      cases hcommand : i.command with
      | view =>
        rw [answer_of_view hconfig hcommand hload]
        exact .view hcommand hconfig hload
      | info =>
        cases c with
        | none =>
          rw [answer_of_info_none hconfig hcommand hload]
          exact .noCondition hcommand hconfig hload
        | some tree =>
          rw [answer_of_info hconfig hcommand hload]
          exact .info hcommand hconfig hload
      | validate fix =>
        cases c with
        | none =>
          rw [answer_of_validate_none hconfig hcommand hload]
          exact .nothingToCheck hcommand hconfig hload
        | some tree =>
          cases fix with
          | false =>
            rw [answer_of_validate hconfig hcommand hload]
            exact .report hcommand hconfig hload
          | true =>
            obtain ⟨r, hr⟩ := exists_replace_of_load hload (some tree.flatten)
            rw [answer_of_fix hconfig hcommand hload hr]
            exact .fix hcommand hconfig hload hr
      | edit intent o =>
        rw [answer_of_edit hconfig hcommand]
        exact course_edit hcommand hconfig hload

/-- All files hold one text, and can be written. -/
def holding (text : String) : Surroundings :=
  ⟨fun _ => none, fun _ => .ok text, fun _ => none⟩

end ConditionTree.CommandLine
