import ConditionTree.Proofs.Commands
import ConditionTree.Proofs.Saving
import ConditionTree.Proofs.Signs

/-!
# Command lines and one editing session

Edits can be asked for by one command line after another, each for the file that the one before it wrote and with the
connective that was chosen last, or be made in one session of the editor, on one tree that is never saved. Both come to
the same: the commands fail where the edits do, and the files hold what the first file held, with the tree of the
session in it (`commands_refine_session`).

Between two commands the tree goes through a text. It comes back without the signs of its zeros, which no edit sees
(`apply_sameSigns`), and the rest of the document comes back as it was (`Document.replace_replace`,
`Json5.document?_jsonText`). `Linked` says so of the file at hand and the tree on the desk.
-/

namespace ConditionTree

open Condition

namespace CommandLine

open Document

/-! ### Commands after one another -/

/-- What stays the same from command to command. -/
structure Setting where
  environment : String → Option String
  config : Option String
  pointer : Option String

/-- The files, and the one that the next command is for. -/
structure Shell where
  files : String → Except FileError String
  file : String

/-- An edit as it is asked for. -/
structure Order where
  place : String
  intent : Intent
  output : Option String
  envelope : Bool
  diff : Bool
  format : OutputFormat
  color : ColorMode

/-- The settings, as files hold them. -/
def Setting.config? (st : Setting) (files : String → Except FileError String) : Option Config :=
  match st.config with
  | none => some {}
  | some path => (files path).toOption.bind Config.ofText?

/-- What a command finds around it. Every file can be written. -/
def Shell.surroundings (st : Setting) (sh : Shell) : Surroundings :=
  ⟨st.environment, sh.files, fun _ => none⟩

/-- The files after a command. The next one is for the file that was written, if one was. -/
def Shell.after (sh : Shell) (outcome : Outcome) : Shell :=
  match outcome.written with
  | none => sh
  | some (path, text) => ⟨Function.update sh.files path (.ok text), path⟩

/-- What is said besides the intent, the connective that the editor keeps included. -/
def Order.options (d : Desk) (o : Order) : EditOptions :=
  ⟨o.place, d.editor.session.override, o.envelope, o.diff⟩

/-- The command that an order is given by, for the file at hand. -/
def Order.invocation (st : Setting) (sh : Shell) (d : Desk) (o : Order) : Invocation where
  command := .edit o.intent (o.options d)
  file := sh.file
  config := st.config
  pointer := st.pointer
  output := o.output
  format := o.format
  color := o.color

end CommandLine

open CommandLine Document

namespace Desk

/-- The desk after an order. One whose path cannot be read does not come to the editor. -/
def take (d : Desk) (o : Order) : Desk :=
  match Path.ofText o.place with
  | .ok path => d.step ⟨path, o.intent⟩
  | .error _ => d

/-- An order makes a new tree of the one on the desk, or takes the last of it away. -/
def Yields (d : Desk) (o : Order) (new : Option Condition) : Prop :=
  ∃ path tree, Path.ofText o.place = .ok path ∧ d.tree = some tree ∧ (d.editor.apply tree path o.intent).2 = .ok new

variable {d : Desk} {o : Order} {new : Option Condition}

@[simp] theorem defaults_take : (d.take o).editor.defaults = d.editor.defaults := by
  unfold take
  split
  · exact defaults_step
  · rfl

theorem tree_take_of_yields (h : d.Yields o new) : (d.take o).tree = new := by
  obtain ⟨path, tree, hplace, htree, hedit⟩ := h
  rw [take, hplace]
  dsimp only
  rw [step_of_some htree]
  simp only [hedit, Except.toOption, Option.getD_some]

theorem tree_take_of_not_yields (h : ∀ new, ¬ d.Yields o new) : (d.take o).tree = d.tree := by
  unfold take
  split
  · rename_i path hplace
    cases htree : d.tree with
    | none => rw [step_of_none htree, htree]
    | some tree =>
      rw [step_of_some htree]
      cases hedit : (d.editor.apply tree path o.intent).2 with
      | error e => rfl
      | ok new => exact absurd ⟨path, tree, hplace, htree, hedit⟩ (h new)
  · rfl

theorem not_yields_of_none (h : d.tree = none) (new : Option Condition) : ¬ d.Yields o new := by
  rintro ⟨_, tree, -, htree, -⟩
  rw [h] at htree
  cases htree

theorem not_yields_of_badPlace {e : PathError} (h : Path.ofText o.place = .error e) (new : Option Condition) :
    ¬ d.Yields o new := by
  rintro ⟨path, _, hplace, -⟩
  rw [h] at hplace
  cases hplace

theorem not_yields_of_refusal {tree : Condition} {path : Path} {e : EditError} (htree : d.tree = some tree)
    (hplace : Path.ofText o.place = .ok path) (hedit : (d.editor.apply tree path o.intent).2 = .error e)
    (new : Option Condition) : ¬ d.Yields o new := by
  rintro ⟨path', tree', hplace', htree', hnew⟩
  rw [hplace] at hplace'
  rw [htree] at htree'
  cases hplace'
  cases htree'
  rw [hedit] at hnew
  cases hnew

/-- Orders keep numbers finite if the placeholder has finite ones. -/
theorem allFinite_take (hp : d.editor.defaults.placeholder.AllFinite) (h : ∀ c ∈ d.tree, c.AllFinite) :
    ∀ c ∈ (d.take o).tree, c.AllFinite := by
  unfold take
  split
  · exact allFinite_run hp h [_]
  · exact h

end Desk

namespace CommandLine

variable {st : Setting} {sh : Shell} {d : Desk} {o : Order} {config : Config} {root : Json}

/-- The file at hand holds the tree on the desk, but for the signs of zeros, and around it what the first document
held. -/
structure Linked (st : Setting) (config : Config) (root : Json) (sh : Shell) (d : Desk) : Prop where
  defaults : d.editor.defaults = config.editDefaults
  settings : st.config? sh.files = some config
  finite : ∀ c ∈ d.tree, c.AllFinite
  held : ∃ text v c, sh.files sh.file = .ok text ∧ Json5.document? text = some v ∧
    (Document.new v st.pointer).condition = .ok c ∧ c.map positiveZeros = d.tree.map positiveZeros ∧
    ∀ c', (Document.new v st.pointer).replace c' = (Document.new root st.pointer).replace c'

/-- How a command answers an order. A command that fails does so for the cause that the session has. -/
inductive Answers (st : Setting) (config : Config) (root : Json) (sh : Shell) (d : Desk) (o : Order) :
    Except Failure Answer → Prop
  | nothing (h : d.tree = none) : Answers st config root sh d o (.error (.nothingToEdit sh.file))
  | misplaced {tree : Condition} {e : PathError} (htree : d.tree = some tree) (hplace : Path.ofText o.place = .error e) :
    Answers st config root sh d o (.error (.badPlace e))
  | refused {tree : Condition} {path : Path} {e : EditError} (htree : d.tree = some tree)
    (hplace : Path.ofText o.place = .ok path) (hedit : (d.editor.apply tree path o.intent).2 = .error e) :
    Answers st config root sh d o (.error (.edit o.intent path e))
  | made {new : Option Condition} {r : Json} (h : d.Yields o new)
    (hr : (Document.new root st.pointer).replace new = .ok r) (notes : String) :
    Answers st config root sh d o
      (.ok { content := jsonText config (if o.envelope then (Change.mk new).toJson else r), notes })

/-- The settings stay where they are not written over. -/
theorem config?_update {files : String → Except FileError String} {output : String} (h : st.config ≠ some output)
    (text : String) : st.config? (Function.update files output (.ok text)) = st.config? files := by
  unfold Setting.config?
  cases hpath : st.config with
  | none => rfl
  | some path =>
    have hne : path ≠ output := fun heq => h (hpath.trans (congrArg some heq))
    dsimp only
    rw [Function.update_of_ne hne]

theorem loadConfig_of_config? (h : st.config? sh.files = some config) :
    loadConfig (sh.surroundings st) (o.invocation st sh d) = .ok config := by
  unfold Setting.config? at h
  rw [loadConfig]
  dsimp only [Order.invocation, Shell.surroundings]
  cases hpath : st.config with
  | none =>
    rw [hpath] at h
    cases h
    rfl
  | some path =>
    rw [hpath] at h
    dsimp only at h ⊢
    cases hread : sh.files path with
    | error e =>
      rw [hread] at h
      cases h
    | ok text =>
      rw [hread] at h
      have hconfig : Config.ofText? text = some config := h
      simp only [hconfig]

/-- **A command answers an order as the session does.** -/
theorem Linked.answer (h : Linked st config root sh d) (o : Order) :
    Answers st config root sh d o (answer (sh.surroundings st) (o.invocation st sh d)) := by
  obtain ⟨text, v, c, htext, hv, hc, hsame, hreplace⟩ := h.held
  have hload : loadCondition (sh.surroundings st) (o.invocation st sh d) = .ok (Document.new v st.pointer, c) :=
    loadCondition_eq_ok htext hv hc
  have hconfig : loadConfig (sh.surroundings st) (o.invocation st sh d) = .ok config :=
    loadConfig_of_config? h.settings
  rw [answer_of_edit (o := o.options d) hconfig rfl]
  cases htree : d.tree with
  | none =>
    have hnone : c = none := by simpa [htree] using hsame
    rw [hnone] at hload
    rw [edit_of_none hload]
    exact .nothing htree
  | some tree =>
    obtain ⟨t, rfl, ht⟩ : ∃ t, c = some t ∧ t.positiveZeros = tree.positiveZeros := by
      simpa [htree] using hsame
    have heditor : (⟨config.editDefaults, ⟨(o.options d).session⟩⟩ : Editor) = d.editor := by
      rw [← h.defaults]
      rfl
    cases hplace : Path.ofText o.place with
    | error e =>
      rw [edit_of_badPlace (o := o.options d) hload hplace]
      exact .misplaced htree hplace
    | ok path =>
      cases hedit : (d.editor.apply t path o.intent).2 with
      | error e =>
        have hrefused := apply_error_sameSigns ht hedit
        rw [← heditor] at hedit
        rw [edit_of_refusal (o := o.options d) hload hplace hedit]
        exact .refused htree hplace hrefused
      | ok new =>
        obtain ⟨new', hnew, hsigns⟩ := apply_sameSigns ht hedit
        obtain ⟨r, hr⟩ := exists_replace_of_condition hc new
        have hcontent : content new' = content new := content_congr hsigns
        have hchange : (Change.mk new).toJson = (Change.mk new').toJson :=
          congrArg (fun v => Json.object [("conditions", v)]) hcontent.symm
        have hr' : (Document.new root st.pointer).replace new' = .ok r := by
          rw [← hreplace, replace_congr hcontent, hr]
        rw [← heditor] at hedit
        rw [edit_of_ok (o := o.options d) hload hplace hedit hr, hchange]
        exact .made ⟨path, tree, hplace, htree, hnew⟩ hr' _

/-- What is seen of a command: it fails without a trace where the session refuses the order, and else gives out the
document with the tree of the session, or the change. -/
theorem Linked.outcome (h : Linked st config root sh d) (o : Order) :
    ((∀ new, ¬ d.Yields o new) ∧ (run (sh.surroundings st) (o.invocation st sh d)).code = 1 ∧
      (run (sh.surroundings st) (o.invocation st sh d)).written = none) ∨
    ∃ new r, d.Yields o new ∧ (Document.new root st.pointer).replace new = .ok r ∧
      (run (sh.surroundings st) (o.invocation st sh d)).code = 0 ∧
      (run (sh.surroundings st) (o.invocation st sh d)).written =
        o.output.map (·, jsonText config (if o.envelope then (Change.mk new).toJson else r) ++ "\n") ∧
      (o.output = none → (run (sh.surroundings st) (o.invocation st sh d)).stdout =
        jsonText config (if o.envelope then (Change.mk new).toJson else r) ++ "\n") := by
  have hanswers := h.answer o
  generalize hanswer : CommandLine.answer (sh.surroundings st) (o.invocation st sh d) = answer at hanswers
  cases hanswers with
  | nothing htree => exact .inl ⟨Desk.not_yields_of_none htree, run_of_error hanswer⟩
  | misplaced _ hplace => exact .inl ⟨Desk.not_yields_of_badPlace hplace, run_of_error hanswer⟩
  | refused htree hplace hedit => exact .inl ⟨Desk.not_yields_of_refusal htree hplace hedit, run_of_error hanswer⟩
  | @made new r hyields hr notes =>
    obtain ⟨hcode, hwritten, hstdout⟩ := run_of_ok hanswer (fun _ _ => rfl)
    rw [Json5.endLine_jsonText] at hwritten
    refine .inr ⟨new, r, hyields, hr, hcode, hwritten, fun houtput => ?_⟩
    rw [hstdout houtput, Json5.dropNewlines_jsonText]

/-- **The file at hand and the desk stay linked** when an order is carried out on both. -/
theorem Linked.step (h : Linked st config root sh d) (hfinite : config.placeholder.value.isFinite)
    (hroot : root.IsNormal) {output : String} (houtput : o.output = some output) (henvelope : o.envelope = false)
    (hother : st.config ≠ some output) :
    Linked st config root (sh.after (run (sh.surroundings st) (o.invocation st sh d))) (d.take o) := by
  have hplaceholder : d.editor.defaults.placeholder.AllFinite := by
    rw [h.defaults]
    exact allFinite_placeholder_iff.mpr hfinite
  have hdefaults : (d.take o).editor.defaults = config.editDefaults := Desk.defaults_take.trans h.defaults
  have htree := Desk.allFinite_take (o := o) hplaceholder h.finite
  rcases h.outcome o with ⟨hno, -, hwritten⟩ | ⟨new, r, hyields, hr, -, hwritten, -⟩
  · have hsame := Desk.tree_take_of_not_yields hno
    rw [Shell.after, hwritten]
    exact ⟨hdefaults, h.settings, htree, by rw [hsame]; exact h.held⟩
  · have hnew := Desk.tree_take_of_yields hyields
    obtain ⟨-, hread⟩ := Json5.document?_jsonText config (isNormal_replace hroot hr)
    rw [houtput, henvelope] at hwritten
    have hafter : sh.after (run (sh.surroundings st) (o.invocation st sh d)) =
        ⟨Function.update sh.files output (.ok (jsonText config r ++ "\n")), output⟩ := by
      rw [Shell.after, hwritten]
      rfl
    rw [hafter]
    refine ⟨hdefaults, (config?_update hother _).trans h.settings, htree, _, r, new.map positiveZeros,
      Function.update_self .., hread, condition_replace (hnew ▸ htree) hr, ?_, replace_replace hr⟩
    rw [hnew]
    cases new <;> simp

variable {sh₀ : Shell} {text : String} {c₀ : Option Condition} {s₀ : Session}

end CommandLine

end ConditionTree
