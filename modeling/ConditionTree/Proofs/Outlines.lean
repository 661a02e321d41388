import ConditionTree.Proofs.Lines
import ConditionTree.Proofs.Numerals
import ConditionTree.Proofs.Reports
import ConditionTree.Proofs.Saving
import Mathlib.Data.List.Forall2

/-!
# What an outline shows

Without colors a line of an outline shows where its node is, twice: by how far it is indented, and by the path after the
last gap in it (`showsPath_outlineLine`). What stands between them names the node (`label_of_describe`), if no series
has the name of the unset one. So a tree is known from its outline (`outline_is_lossless`).
-/

namespace ConditionTree

/-- What stands after the last two spaces that follow on each other. -/
def afterLastGap? : List Char → Option (List Char)
  | [] => none
  | c :: rest =>
    (afterLastGap? rest).or (if c = ' ' ∧ rest.head? = some ' ' then some rest.tail else none)

/-- The line is indented by two spaces for each branch of the path, and the path is read from what stands after the last
gap. -/
structure ShowsPath (line : String) (path : Path) : Prop where
  indent : line.toList.takeWhile (· = ' ') = List.replicate (2 * path.length) ' '
  path : (afterLastGap? line.toList).map (fun cs => Path.ofText (String.ofList cs)) = some (.ok path)

theorem ShowsPath.unique {line : String} {p q : Path} (h : ShowsPath line p) (h' : ShowsPath line q) : p = q :=
  Except.ok.inj (Option.some.inj (h.path.symm.trans h'.path))

variable {cs tail : List Char}

/-! ### What stands after the last gap -/

theorem afterLastGap?_of_notMem (h : ' ' ∉ cs) : afterLastGap? cs = none := by
  induction cs with
  | nil => rfl
  | cons c cs ih =>
    rw [List.mem_cons, not_or] at h
    rw [afterLastGap?, ih h.2, Option.none_or, if_neg fun hgap => h.1 hgap.1.symm]

theorem afterLastGap?_append (front : List Char) (h : ' ' ∉ tail) :
    afterLastGap? (front ++ ' ' :: ' ' :: tail) = some tail := by
  induction front with
  | nil =>
    have hhead : tail.head? ≠ some ' ' := fun hhead => h (List.mem_of_head? hhead)
    have hlater : afterLastGap? (' ' :: tail) = none := by
      rw [afterLastGap?, afterLastGap?_of_notMem h, Option.none_or, if_neg fun hgap => hhead hgap.2]
    rw [List.nil_append, afterLastGap?, hlater]
    rfl
  | cons c front ih => rw [List.cons_append, afterLastGap?, ih, Option.some_or]

theorem Comparator.symbol_injective {o o' : Comparator} (h : o.symbol = o'.symbol) : o = o' := by
  have htag := congrArg Tag.ofText? h
  rw [Condition.ofText?_comparator, Condition.ofText?_comparator] at htag
  cases htag
  rfl

theorem Connective.symbol_injective {o o' : Connective} (h : o.symbol = o'.symbol) : o = o' := by
  have htag := congrArg Tag.ofText? h
  rw [Condition.ofText?_connective, Condition.ofText?_connective] at htag
  cases htag
  rfl

namespace Condition

variable {c c' n n' : Condition} {p : Path}

/-- What a line says of a node after its kind. -/
def detail : Condition → String
  | number x => numberText x
  | reference none => unsetText
  | reference (some series) => series
  | comparison o _ _ => o.symbol
  | boolean o _ _ | group o _ => o.symbol

theorem toList_describe (n : Condition) : (n.describe false).toList = n.kind.name.toList ++ ' ' :: n.detail.toList := by
  have hdescribe : n.describe false = n.kind.name ++ " " ++ n.detail := by
    cases n with
    | reference s => cases s <;> rfl
    | _ => rfl
  rw [hdescribe, String.toList_append, String.toList_append, List.append_assoc]
  rfl

theorem takeWhile_name (k : NodeKind) (rest : List Char) :
    (k.name.toList ++ ' ' :: rest).takeWhile (· ≠ ' ') = k.name.toList := by
  cases k <;> rfl

theorem detail_of_describe (h : n.describe false = n'.describe false) : n.kind = n'.kind ∧ n.detail = n'.detail := by
  have hchars : n.kind.name.toList ++ ' ' :: n.detail.toList = n'.kind.name.toList ++ ' ' :: n'.detail.toList := by
    rw [← toList_describe, h, toList_describe]
  have hname : n.kind.name.toList = n'.kind.name.toList := by
    rw [← takeWhile_name n.kind n.detail.toList, hchars, takeWhile_name]
  rw [hname] at hchars
  exact ⟨NodeKind.name_injective (String.toList_injective hname),
    String.toList_injective (List.cons_eq_cons.mp (List.append_cancel_left hchars)).2⟩

/-- **A node is known from its line**, apart from what stands below it. -/
theorem label_of_describe (hn : n.AllFinite) (hn' : n'.AllFinite) (hset : n ≠ reference (some unsetText))
    (hset' : n' ≠ reference (some unsetText)) (h : n.describe false = n'.describe false) : n.label = n'.label := by
  obtain ⟨hkind, hdetail⟩ := detail_of_describe h
  cases n with
  | number x =>
    cases n' <;> cases hkind
    exact congrArg Label.number (numberText_injective hn hn' hdetail)
  | reference s =>
    cases n' <;> cases hkind
    rename_i s'
    cases s with
    | none =>
      cases s' with
      | none => rfl
      | some name => exact absurd (congrArg (fun s => reference (some s)) hdetail.symm) hset'
    | some name =>
      cases s' with
      | none => exact absurd (congrArg (fun s => reference (some s)) hdetail) hset
      | some name' => exact congrArg (fun s => Label.reference (some s)) hdetail
  | comparison o l r =>
    cases n' <;> cases hkind
    exact congrArg Label.comparison (Comparator.symbol_injective hdetail)
  | boolean o l r =>
    cases n' <;> cases hkind
    exact congrArg Label.boolean (Connective.symbol_injective hdetail)
  | group o child =>
    cases n' <;> cases hkind
    exact congrArg Label.group (Connective.symbol_injective hdetail)

/-! ### Lines -/

/-- No name of a series in the tree goes over several lines. -/
def NamesInLine (c : Condition) : Prop :=
  ∀ p name, c.get? p = some (reference (some name)) → '\n' ∉ name.toList

theorem newline_notMem_describe (h : ∀ name, n = reference (some name) → '\n' ∉ name.toList) :
    '\n' ∉ (n.describe false).toList := by
  have hkind : ∀ k : NodeKind, '\n' ∉ k.name.toList := fun k => by cases k <;> decide
  have hcomparator : ∀ o : Comparator, '\n' ∉ o.symbol.toList := fun o => by cases o <;> decide
  have hconnective : ∀ o : Connective, '\n' ∉ o.symbol.toList := fun o => by cases o <;> decide
  have hdetail : '\n' ∉ n.detail.toList := by
    cases n with
    | number x => exact newline_notMem_of_printable (printable_numberText x)
    | reference s =>
      cases s with
      | none => decide
      | some name => exact h name rfl
    | comparison o l r => exact hcomparator o
    | boolean o l r | group o child => exact hconnective o
  rw [toList_describe]
  simp [hkind, hdetail]

theorem toList_outlineLine (path : Path) (n : Condition) : (outlineLine false path n).toList =
    List.replicate (2 * path.length) ' ' ++ ((n.describe false).toList ++ ' ' :: ' ' :: path.text.toList) := by
  simp [outlineLine, String.toList_append]

theorem newline_notMem_outlineLine (path : Path) (h : ∀ name, n = reference (some name) → '\n' ∉ name.toList) :
    '\n' ∉ (outlineLine false path n).toList := by
  have hpath : '\n' ∉ path.text.toList := Path.blank_notMem_text rfl path
  have hdescribe := newline_notMem_describe h
  rw [toList_outlineLine]
  simp [hpath, hdescribe]

/-- **A line shows where its node is.** -/
theorem showsPath_outlineLine (path : Path) (n : Condition) : ShowsPath (outlineLine false path n) path := by
  have hspace : ' ' ∉ path.text.toList := Path.blank_notMem_text rfl path
  refine ⟨?_, ?_⟩
  · have hspaces : ∀ c ∈ List.replicate (2 * path.length) ' ', decide (c = ' ') = true := fun c hc =>
      decide_eq_true (List.eq_of_mem_replicate hc)
    have hkind : ∀ (k : NodeKind) (rest : List Char), (k.name.toList ++ rest).takeWhile (· = ' ') = [] :=
      fun k rest => by cases k <;> rfl
    rw [toList_outlineLine, List.takeWhile_append_of_pos hspaces, toList_describe, List.append_assoc, hkind,
      List.append_nil]
  · rw [toList_outlineLine, ← List.append_assoc, afterLastGap?_append _ hspace, Option.map_some, String.ofList_toList,
      Path.ofText_text]

/-- A line is of one node at one place. -/
theorem eq_of_outlineLine {path path' : Path} (h : outlineLine false path n = outlineLine false path' n') :
    path = path' ∧ n.describe false = n'.describe false := by
  have hpath : path = path' := by
    have hshows := showsPath_outlineLine path n
    rw [h] at hshows
    exact hshows.unique (showsPath_outlineLine path' n')
  subst hpath
  have hlist := congrArg String.toList h
  rw [toList_outlineLine, toList_outlineLine] at hlist
  exact ⟨rfl, String.toList_injective (List.append_cancel_right (List.append_cancel_left hlist))⟩

/-! ### Outlines -/

theorem outline_eq (c : Condition) : c.outline false =
    String.join ((c.walk.map fun x => outlineLine false x.1 x.2).map (· ++ "\n")) := by
  rw [outline, List.map_map]
  rfl

/-- **The lines of an outline are those of the nodes.** -/
theorem lines?_outline (h : c.NamesInLine) :
    Text.lines? (c.outline false) = some (c.walk.map fun x => outlineLine false x.1 x.2) := by
  rw [outline_eq]
  refine Text.lines?_join fun line hline => ?_
  obtain ⟨⟨path, n⟩, hx, rfl⟩ := List.mem_map.mp hline
  refine newline_notMem_outlineLine path fun name hn => h path name ?_
  rw [← hn]
  exact mem_walk_iff.mp hx

/-- Trees of the same outline have the same labels at the same places. -/
theorem label_of_outline (hc : c.AllFinite) (hc' : c'.AllFinite) (hlines : c.NamesInLine) (hlines' : c'.NamesInLine)
    (hset : ∀ p, c.get? p ≠ some (reference (some unsetText)))
    (hset' : ∀ p, c'.get? p ≠ some (reference (some unsetText))) (h : c.outline false = c'.outline false) :
    c.walk.map (fun x => (x.1, x.2.label)) = c'.walk.map fun x => (x.1, x.2.label) := by
  have hline : (c.walk.map fun x => outlineLine false x.1 x.2) = c'.walk.map fun x => outlineLine false x.1 x.2 := by
    have hsome := lines?_outline hlines
    rw [h, lines?_outline hlines'] at hsome
    exact (Option.some.inj hsome).symm
  have hlength : c.walk.length = c'.walk.length := by simpa using congrArg List.length hline
  refine List.ext_getElem (by simpa using hlength) fun i hi hi' => ?_
  rw [List.length_map] at hi hi'
  have hsame : outlineLine false c.walk[i].1 c.walk[i].2 = outlineLine false c'.walk[i].1 c'.walk[i].2 := by
    have hget := congrArg (·[i]?) hline
    simpa [hi, hi'] using hget
  have hplace : c.get? c.walk[i].1 = some c.walk[i].2 := mem_walk_iff.mp (List.getElem_mem hi)
  have hplace' : c'.get? c'.walk[i].1 = some c'.walk[i].2 := mem_walk_iff.mp (List.getElem_mem hi')
  obtain ⟨hpath, hdescribe⟩ := eq_of_outlineLine hsame
  have hlabel := label_of_describe (allFinite_of_get? hc hplace) (allFinite_of_get? hc' hplace')
    (fun heq => hset _ (heq ▸ hplace)) (fun heq => hset' _ (heq ▸ hplace')) hdescribe
  rw [List.getElem_map, List.getElem_map]
  exact Prod.ext hpath hlabel

end Condition

open Condition

/-- **A tree is not lost in its outline.** If no name of a series goes over several lines, there is a line for each node
in the order of the walk, which shows the path of the node. And two such trees of finite numbers are the same if their
outlines are, unless a series has the name that stands for an unset one. -/
theorem outline_is_lossless :
    (∀ c : Condition, c.NamesInLine → ∃ lines, Text.lines? (c.outline false) = some lines ∧
      lines.length = c.nodeCount ∧ List.Forall₂ ShowsPath lines (c.walk.map Prod.fst)) ∧
    ∀ c c' : Condition, c.AllFinite → c'.AllFinite → c.NamesInLine → c'.NamesInLine →
      (∀ p, c.get? p ≠ some (reference (some "<unset>"))) → (∀ p, c'.get? p ≠ some (reference (some "<unset>"))) →
      c.outline false = c'.outline false → c = c' := by
  refine ⟨fun c h => ⟨_, lines?_outline h, List.length_map _, ?_⟩, ?_⟩
  · rw [List.forall₂_map_left_iff, List.forall₂_map_right_iff, List.forall₂_same]
    exact fun x _ => showsPath_outlineLine x.1 x.2
  · intro c c' hc hc' hlines hlines' hset hset' h
    exact eq_of_map_label_walk (label_of_outline hc hc' hlines hlines' hset hset' h)

/-- A comparison with a series whose name ends as a line does. -/
def Condition.misleadingTree (x : Double) : Condition :=
  comparison .less (reference (some "sum  $.left")) (number x)

/-- The name that looks like the end of a line hides no place, and the two zeros have different outlines. -/
theorem zeros_have_different_outlines :
    (∃ lines, Text.lines? ((misleadingTree .zero).outline false) = some lines ∧ lines.length = 3 ∧
      List.Forall₂ ShowsPath lines [[], [.left], [.right]]) ∧
    (misleadingTree .zero).outline false ≠ (misleadingTree (.signedZero true)).outline false := by
  have hname : ∀ x p name, (misleadingTree x).get? p = some (reference (some name)) → name = "sum  $.left" :=
    fun x p name hp => by
      have hmem := mem_walk_iff.mpr hp
      simp [misleadingTree, walk, under] at hmem
      exact hmem.2
  have hline : ∀ x, (misleadingTree x).NamesInLine := fun x p name hp => by
    rw [hname x p name hp]
    decide
  have hset : ∀ x p, (misleadingTree x).get? p ≠ some (reference (some "<unset>")) := fun x p hp => by
    have hsame := hname x p _ hp
    simp at hsame
  obtain ⟨hshows, hinjective⟩ := outline_is_lossless
  refine ⟨?_, fun h => ?_⟩
  · obtain ⟨lines, hlines, hcount, hpaths⟩ := hshows (misleadingTree .zero) (hline _)
    exact ⟨lines, hlines, hcount, hpaths⟩
  · have heq := hinjective (misleadingTree .zero) (misleadingTree (.signedZero true)) ⟨trivial, rfl⟩ ⟨trivial, rfl⟩
      (hline _) (hline _) (hset _) (hset _) h
    cases heq

end ConditionTree
