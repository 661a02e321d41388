import ConditionTree.Proofs.Flattening
import ConditionTree.Proofs.Outcomes

/-!
# Repair by the command line

`validate --fix` gives out the document with its condition flattened. Given its own product it gives out the same text
once more, a check of the product finds no group right inside another one and the same kinds of nodes in place of
operands, and around the condition nothing has changed (`fix_is_stable`).

The text in between costs the tree the signs of its zeros and nothing else (`condition_of_fixed`); a second flattening
finds nothing to do, and the JSON form does not tell these signs, so the document that is written the second time is the
one that was read (`replace_of_fixed`).
-/

namespace ConditionTree

open Condition Document

/-! ### The document with the flattened condition -/

namespace Document

variable {root r : Json} {pointer : Option String} {tree : Condition}

/-- The flattened condition is read back, but for the signs of zeros. -/
theorem condition_of_fixed (hc : (new root pointer).condition = .ok (some tree))
    (hr : (new root pointer).replace (some tree.flatten) = .ok r) :
    (new r pointer).condition = .ok (some tree.flatten.positiveZeros) := by
  have hfinite : tree.AllFinite := allFinite_of_condition hc tree rfl
  have hflat : ∀ t ∈ some tree.flatten, t.AllFinite := by
    rintro t ⟨⟩
    exact allFinite_flatten hfinite
  exact condition_replace hflat hr

/-- Flattened once more and put in once more it leaves the document as it is. -/
theorem replace_of_fixed (hr : (new root pointer).replace (some tree.flatten) = .ok r) :
    (new r pointer).replace (some tree.flatten.positiveZeros.flatten) = .ok r := by
  have hsame : tree.flatten.positiveZeros.flatten = tree.flatten.positiveZeros := by
    rw [← positiveZeros_flatten, flatten_flatten]
  have hcontent : content (some tree.flatten.positiveZeros) = content (some tree.flatten) := by
    refine content_congr ?_
    rw [Option.map_some, Option.map_some, positiveZeros_positiveZeros]
  calc (new r pointer).replace (some tree.flatten.positiveZeros.flatten)
      = (new r pointer).replace (some tree.flatten) := by rw [hsame, replace_congr hcontent]
    _ = (new root pointer).replace (some tree.flatten) := replace_replace hr _
    _ = .ok r := hr

end Document

namespace CommandLine

variable {s s' : Surroundings} {i i' : Invocation} {config : Config} {text : String} {root r v : Json} {tree : Condition}

/-! ### What a command gives out -/

/-- What comes out of a command, into a file or else on the terminal. -/
def Outcome.product (o : Outcome) : String :=
  match o.written with
  | some (_, text) => text
  | none => o.stdout

/-- A JSON text comes out alike on the terminal and in a file. -/
theorem product_of_json {notes : String} (h : answer s i = .ok { content := jsonText config v, notes })
    (hwritable : Writable s i) :
    (run s i).code = 0 ∧ (run s i).product = jsonText config v ++ "\n" := by
  cases houtput : i.output with
  | none =>
    rw [run_of_printed h houtput]
    exact ⟨rfl, congrArg (· ++ "\n") (Json5.dropNewlines_jsonText config v)⟩
  | some path =>
    rw [run_of_written h houtput (hwritable path houtput)]
    exact ⟨rfl, Json5.endLine_jsonText config v⟩

/-- The command answers with the report on a tree. It gives out the text of the report, on the terminal or in a file, and
fails exactly if there is something to report. -/
structure Reports (s : Surroundings) (i : Invocation) (config : Config) (tree : Condition) : Prop where
  answer : answer s i = .ok (report i config tree)
  code : (run s i).code = 1 ↔ tree.validate ≠ []
  delivers : (run s i).Delivers i.output ((report i config tree).content ++ "\n")

theorem reports_of_load {d : Document} (hcommand : i.command = .validate false) (hconfig : loadConfig s i = .ok config)
    (hload : loadCondition s i = .ok (d, some tree)) (hwritable : Writable s i) : Reports s i config tree := by
  obtain ⟨hcode, hdelivers⟩ := delivers_report hcommand hconfig hload hwritable
  exact ⟨answer_of_validate hconfig hcommand hload, hcode, hdelivers⟩

/-! ### Repairing twice -/

theorem exists_config_of_code (h : (run s i).code = 0) : ∃ config, loadConfig s i = .ok config := by
  obtain ⟨a, hanswer, -⟩ := exists_answer_of_code h
  cases hconfig : loadConfig s i with
  | ok config => exact ⟨config, rfl⟩
  | error f =>
    rw [answer_of_badSettings hconfig] at hanswer
    cases hanswer

/-- A repair that succeeds gives out the document with the flattened condition. -/
theorem exists_product_of_fix (hcommand : i.command = .validate true) (hconfig : loadConfig s i = .ok config)
    (hload : loadCondition s i = .ok (new root i.pointer, some tree)) (hcode : (run s i).code = 0) :
    ∃ r, (new root i.pointer).replace (some tree.flatten) = .ok r ∧ (run s i).product = jsonText config r ++ "\n" := by
  obtain ⟨r, hr⟩ := exists_replace_of_load hload (some tree.flatten)
  obtain ⟨a, -, hwritable⟩ := exists_answer_of_code hcode
  obtain ⟨-, hproduct⟩ := product_of_json (answer_of_fix hconfig hcommand hload hr) hwritable
  exact ⟨r, hr, hproduct⟩

/-- **Repair is stable.** Where `validate --fix` succeeds on a document with a condition, `validate --fix` on what it
gave out, with the same pointer and the same settings, gives out the same text. Plain `validate`, which gives out the
report on the tree of the first document, gives out one on the second that tells of no group right inside another one,
and for the sides of comparisons of the same kinds in the same order. All that is apart from the condition is in the
second document as it was in the first one, and nothing else is. -/
theorem fix_is_stable (hcommand : i.command = .validate true) (htext : s.read i.file = .ok text)
    (hroot : Json5.document? text = some root) (hc : (Document.new root i.pointer).condition = .ok (some tree))
    (hcode : (run s i).code = 0) (hfile : s'.read i'.file = .ok (run s i).product) (hpointer : i'.pointer = i.pointer)
    (hconfig : loadConfig s' i' = loadConfig s i) (hwritable : Writable s' i') :
    (i'.command = .validate true → (run s' i').code = 0 ∧ (run s' i').product = (run s i).product) ∧
    (i'.command = .validate false → ∃ config fixed,
      Reports s { i with command := .validate false } config tree ∧ Reports s' i' config fixed ∧
      (∀ v ∈ fixed.validate, v.rule ≠ .nestedGroup) ∧
      fixed.validate.filterMap Violation.kind? = tree.validate.filterMap Violation.kind?) ∧
    ∃ r ts, Json5.document? (run s i).product = some r ∧ (Document.new root i.pointer).tokens? = some ts ∧
      (∀ q, ¬ q <+: ts → ¬ ts <+: q → r.at? q = root.at? q) ∧
      ∀ q, ¬ ts <+: q → (r.at? q).isSome = (root.at? q).isSome := by
  have hload : loadCondition s i = .ok (new root i.pointer, some tree) := loadCondition_eq_ok htext hroot hc
  obtain ⟨config, hsettings⟩ := exists_config_of_code hcode
  obtain ⟨r, hr, hproduct⟩ := exists_product_of_fix hcommand hsettings hload hcode
  have hnormal : r.IsNormal := isNormal_replace (Json5.isNormal_document hroot) hr
  have hread : Json5.document? (run s i).product = some r := by
    rw [hproduct]
    exact (Json5.document?_jsonText config hnormal).2
  have hsettings' : loadConfig s' i' = .ok config := hconfig.trans hsettings
  have hload' : loadCondition s' i' = .ok (new r i'.pointer, some tree.flatten.positiveZeros) := by
    refine loadCondition_eq_ok hfile hread ?_
    rw [hpointer]
    exact condition_of_fixed hc hr
  refine ⟨fun hfix => ?_, fun hcheck => ?_, ?_⟩
  · have hagain : (new r i'.pointer).replace (some tree.flatten.positiveZeros.flatten) = .ok r := by
      rw [hpointer]
      exact replace_of_fixed hr
    rw [hproduct]
    exact product_of_json (answer_of_fix hsettings' hfix hload' hagain) hwritable
  · obtain ⟨-, -, hsendable⟩ := exists_answer_of_code hcode
    refine ⟨config, tree.flatten.positiveZeros, reports_of_load (i := { i with command := .validate false }) rfl hsettings
      hload hsendable, reports_of_load hcheck hsettings' hload' hwritable, ?_, ?_⟩
    · rw [validate_positiveZeros]
      exact rule_ne_of_breaches (breaches_flatten tree)
    · rw [validate_positiveZeros]
      exact nonOperandKinds_flatten tree
  · obtain ⟨ts, hts, hset⟩ := replace_eq_ok_iff.mp hr
    exact ⟨r, ts, hread, hts, fun q hq hq' => Json.at?_setAt?_apart hset hq hq',
      fun q hq => Json.isSome_at?_setAt? hset hq⟩

/-- Two groups in one another around a comparison, which has two such groups on a side, around a negative zero. -/
def nestedTree : Condition :=
  group .and (group .or (comparison .greater (group .and (group .or (number (.signedZero true)))) (reference none)))

/-- A document with this tree and the largest whole number beside it. -/
def nestedDocument : Json :=
  .object [("c", .object [("child", .object [("child", .object [("expr", .string ">"),
    ("left", .object [("child", .object [("child", .object [("expr", .string "number"),
      ("value", .double (.signedZero true))]), ("expr", .string "group"), ("operator", .string "||")]),
      ("expr", .string "group"), ("operator", .string "&&")]),
    ("right", .object [("expr", .string "number-ref")])]), ("expr", .string "group"), ("operator", .string "||")]),
    ("expr", .string "group"), ("operator", .string "&&")]), ("n", .int 0xFFFFFFFFFFFFFFFF)]

def check (fix : Bool) : Invocation :=
  ⟨.validate fix, "a", none, some "/c", none, .text, .auto⟩

/-- Both pairs of groups are mended at once. The groups left in the comparison are reported afterwards as before, and the
number stays. -/
theorem nested_groups_fixed_once :
    (check true).command = .validate true ∧
    Json5.document? (jsonText {} nestedDocument) = some nestedDocument ∧
    (Document.new nestedDocument (check true).pointer).condition = .ok (some nestedTree) ∧
    (run (holding (jsonText {} nestedDocument)) (check true)).code = 0 ∧
    ∃ fixed, (run (holding (jsonText {} nestedDocument)) (check true)).product = fixed ∧
      (run (holding fixed) (check true)).product = fixed ∧
      (run (holding fixed) (check false)).code = 1 ∧
      (∃ config tree, Reports (holding fixed) (check false) config tree ∧
        (∀ v ∈ tree.validate, v.rule ≠ .nestedGroup) ∧ tree.validate.filterMap Violation.kind? = [.group]) ∧
      ∃ r, Json5.document? fixed = some r ∧ r.at? ["n"] = some (.int 0xFFFFFFFFFFFFFFFF) := by
  have hsides : ["expr", "left", "right"].Pairwise (· < ·) := by decide
  have hgroup : ["child", "expr", "operator"].Pairwise (· < ·) := by decide
  have hnormal : nestedDocument.IsNormal := by
    refine ⟨by decide, ⟨hgroup, ⟨hgroup, ⟨hsides, trivial, ⟨hgroup, ⟨hgroup, ⟨by decide, trivial, rfl, trivial⟩, trivial,
      trivial, trivial⟩, trivial, trivial, trivial⟩, ⟨by decide, trivial, trivial⟩, trivial⟩, trivial, trivial, trivial⟩,
      trivial, trivial, trivial⟩, ⟨by decide, by decide⟩, trivial⟩
  have hroot := (Json5.document?_jsonText {} hnormal).1
  have hc : (Document.new nestedDocument (check true).pointer).condition = .ok (some nestedTree) := rfl
  have hread : ∀ (text : String) (fix : Bool), (holding text).read (check fix).file = .ok text := fun _ _ => rfl
  have hconfig : ∀ (text : String) (fix : Bool), loadConfig (holding text) (check fix) = .ok {} := fun _ _ => rfl
  have hwritable : ∀ text fix, Writable (holding text) (check fix) := fun _ _ _ _ => rfl
  have hload : loadCondition (holding (jsonText {} nestedDocument)) (check true) = .ok (_, some nestedTree) :=
    loadCondition_eq_ok (hread _ _) hroot hc
  obtain ⟨r, hr⟩ := exists_replace_of_load hload (some nestedTree.flatten)
  have hcode := (product_of_json (answer_of_fix (hconfig _ _) rfl hload hr) (hwritable _ true)).1
  generalize hproduct : (run (holding (jsonText {} nestedDocument)) (check true)).product = fixed
  have hfile : ∀ fix, (holding fixed).read (check fix).file =
      .ok (run (holding (jsonText {} nestedDocument)) (check true)).product := fun fix => by rw [hread, hproduct]
  have hsettings : ∀ fix, loadConfig (holding fixed) (check fix) =
      loadConfig (holding (jsonText {} nestedDocument)) (check true) := fun fix => by rw [hconfig, hconfig]
  obtain ⟨hagain, -, r', ts, hfixed, hts, happart, -⟩ :=
    fix_is_stable rfl (hread _ _) hroot hc hcode (hfile true) rfl (hsettings true) (hwritable _ true)
  obtain ⟨-, hcheck, -⟩ :=
    fix_is_stable rfl (hread _ _) hroot hc hcode (hfile false) rfl (hsettings false) (hwritable _ false)
  rw [hproduct] at hagain hfixed
  obtain ⟨config, tree, -, hreport, hnested, hkinds⟩ := hcheck rfl
  have hbroken : tree.validate ≠ [] := by
    intro hempty
    rw [hempty] at hkinds
    cases hkinds
  cases hts
  exact ⟨rfl, hroot, hc, hcode, fixed, rfl, (hagain rfl).2, hreport.code.mpr hbroken,
    ⟨config, tree, hreport, hnested, hkinds⟩, r', hfixed, happart ["n"] (by decide) (by decide)⟩

end CommandLine

end ConditionTree
