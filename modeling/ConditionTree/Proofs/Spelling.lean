import ConditionTree.Json.Text
import ConditionTree.Json5.Space
import Mathlib.Tactic.Common

/-!
# One writer for both forms of a text

Compact and pretty text differ in the space that they leave at the start of a line and after a colon, and in nothing
else. `spell` takes that space as a parameter, so what holds of it holds of both. It is on characters, as a reader is.
-/

namespace ConditionTree

namespace Json

open Json5 (isSpace)

/-- The space that a text leaves at the start of a line of a level, and after a colon. -/
structure Spacing where
  line : Nat → List Char
  colon : List Char
  isSpace_line : ∀ level, ∀ c ∈ line level, isSpace c
  isSpace_colon : ∀ c ∈ colon, isSpace c

/-- No space at all. -/
def Spacing.none : Spacing where
  line _ := []
  colon := []
  isSpace_line := by simp
  isSpace_colon := by simp

/-- Lines that are indented by two spaces a level. -/
def Spacing.lines : Spacing where
  line level := '\n' :: List.replicate (2 * level) ' '
  colon := [' ']
  isSpace_line level c hc := by
    rcases List.mem_cons.mp hc with rfl | hc
    · rfl
    · rw [List.eq_of_mem_replicate hc]
      rfl
  isSpace_colon c hc := by
    rw [List.mem_singleton.mp hc]
    rfl

/-! ### Lists between brackets -/

/-- What follows the first of several pieces inside brackets. -/
def closeList (sp : Spacing) (level : Nat) (closing : Char) : List (List Char) → List Char
  | [] => sp.line level ++ [closing]
  | piece :: rest => ',' :: (sp.line (level + 1) ++ (piece ++ closeList sp level closing rest))

/-- What follows an opening bracket. -/
def bracketBody (sp : Spacing) (level : Nat) (closing : Char) : List (List Char) → List Char
  | [] => [closing]
  | piece :: rest => sp.line (level + 1) ++ (piece ++ closeList sp level closing rest)

theorem length_closeList_pos (sp : Spacing) (level : Nat) (closing : Char) (pieces : List (List Char)) :
    0 < (closeList sp level closing pieces).length := by
  cases pieces <;> simp [closeList]

theorem getLast?_closeList (sp : Spacing) (level : Nat) (closing : Char) (pieces : List (List Char)) :
    (closeList sp level closing pieces).getLast? = some closing := by
  induction pieces with
  | nil => simp [closeList]
  | cons piece rest ih => simp [closeList, List.getLast?_cons, ih]

theorem getLast?_bracketBody (sp : Spacing) (level : Nat) (closing : Char) (pieces : List (List Char)) :
    (bracketBody sp level closing pieces).getLast? = some closing := by
  cases pieces with
  | nil => rfl
  | cons piece rest => simp [bracketBody, getLast?_closeList]

theorem length_bracketBody_pos (sp : Spacing) (level : Nat) (closing : Char) (pieces : List (List Char)) :
    0 < (bracketBody sp level closing pieces).length := by
  cases pieces with
  | nil => exact Nat.one_pos
  | cons piece rest =>
    have hpos := length_closeList_pos sp level closing rest
    simp only [bracketBody, List.length_append]
    omega

/-- One character of a bracket at least is for no piece before the last. -/
theorem length_bracketBody (sp : Spacing) (level : Nat) (closing : Char) (piece : List Char)
    (pieces : List (List Char)) :
    piece.length < (bracketBody sp level closing (piece :: pieces)).length ∧
      (pieces ≠ [] →
        (bracketBody sp level closing pieces).length < (bracketBody sp level closing (piece :: pieces)).length) := by
  have hpos := length_closeList_pos sp level closing pieces
  refine ⟨by simp only [bracketBody, List.length_append]; omega, fun hne => ?_⟩
  cases pieces with
  | nil => exact absurd rfl hne
  | cons next rest =>
    simp only [bracketBody, closeList, List.length_append, List.length_cons]
    omega

/-! ### The text of a value -/

/-- A string in its quotes. -/
def quoteChars (s : String) : List Char :=
  '"' :: (s.toList.flatMap escape ++ ['"'])

mutual

/-- The text of a value that starts at a level. -/
def spell (sp : Spacing) (level : Nat) : Json → List Char
  | null => "null".toList
  | bool true => "true".toList
  | bool false => "false".toList
  | int n => intText n
  | double x => NumberLayout.json.text x
  | string s => quoteChars s
  | array items => '[' :: bracketBody sp level ']' (spellItems sp (level + 1) items)
  | object members => '\x7b' :: bracketBody sp level '\x7d' (spellMembers sp (level + 1) members)

def spellItems (sp : Spacing) (level : Nat) : List Json → List (List Char)
  | [] => []
  | item :: rest => item.spell sp level :: spellItems sp level rest

def spellMembers (sp : Spacing) (level : Nat) : List (String × Json) → List (List Char)
  | [] => []
  | (key, value) :: rest =>
    (quoteChars key ++ ':' :: (sp.colon ++ value.spell sp level)) :: spellMembers sp level rest

end

variable {sp : Spacing} {level : Nat}

theorem spellItems_eq_nil_iff {items : List Json} : spellItems sp level items = [] ↔ items = [] := by
  cases items <;> simp [spellItems]

theorem spellMembers_eq_nil_iff {members : List (String × Json)} :
    spellMembers sp level members = [] ↔ members = [] := by
  cases members <;> simp [spellMembers]

/-! ### Both writers of texts -/

theorem toList_intercalate_closeList {separator : String} (h : separator.toList = ',' :: sp.line (level + 1))
    (closing : Char) (piece : String) (pieces : List String) :
    (String.intercalate separator (piece :: pieces)).toList ++ (sp.line level ++ [closing]) =
      piece.toList ++ closeList sp level closing (pieces.map String.toList) := by
  induction pieces generalizing piece with
  | nil => rw [String.intercalate_singleton]; rfl
  | cons next rest ih =>
    rw [String.intercalate_cons_cons, String.toList_append, String.toList_append, List.append_assoc, ih, h,
      List.map_cons, closeList]
    simp

theorem toList_bracket (opening closing : Char) (pieces : List String) :
    (bracket (String.ofList [opening]) pieces (String.ofList [closing])).toList =
      opening :: bracketBody .none level closing (pieces.map String.toList) := by
  cases pieces with
  | nil => simp [bracket, bracketBody]
  | cons piece rest =>
    have hseparator : ",".toList = ',' :: Spacing.none.line (level + 1) := rfl
    have hlist := toList_intercalate_closeList hseparator closing piece rest
    rw [bracket, String.toList_append, String.toList_append, List.append_assoc, String.toList_ofList,
      String.toList_ofList]
    exact congrArg (opening :: ·) hlist

theorem toList_newLine (level : Nat) : (newLine level).toList = Spacing.lines.line level :=
  String.toList_ofList

theorem toList_block (opening closing : Char) (pieces : List String) :
    (block level (String.ofList [opening]) pieces (String.ofList [closing])).toList =
      opening :: bracketBody .lines level closing (pieces.map String.toList) := by
  cases pieces with
  | nil => simp [block, bracketBody]
  | cons piece rest =>
    have hseparator : ("," ++ newLine (level + 1)).toList = ',' :: Spacing.lines.line (level + 1) := by
      rw [String.toList_append, toList_newLine]
      rfl
    have hlist := toList_intercalate_closeList hseparator closing piece rest
    rw [block, if_neg (by simp)]
    simp only [String.toList_append, toList_newLine, List.append_assoc, String.toList_ofList, hlist]
    rfl

mutual

/-- Compact text leaves no space. -/
theorem toList_compact (level : Nat) : ∀ v : Json, v.compact.toList = v.spell .none level
  | null | bool true | bool false => rfl
  | int _ | double _ | string _ => String.toList_ofList
  | array items => by
    have hpieces := map_compactItems (level + 1) items
    rw [spell, ← hpieces, ← toList_bracket]
    rfl
  | object members => by
    have hpieces := map_compactMembers (level + 1) members
    rw [spell, ← hpieces, ← toList_bracket]
    rfl

theorem map_compactItems (level : Nat) : ∀ items : List Json,
    (compactItems items).map String.toList = spellItems .none level items
  | [] => rfl
  | item :: rest => by
    rw [compactItems, List.map_cons, toList_compact level item, map_compactItems level rest]
    rfl

theorem map_compactMembers (level : Nat) : ∀ members : List (String × Json),
    (compactMembers members).map String.toList = spellMembers .none level members
  | [] => rfl
  | (key, value) :: rest => by
    rw [compactMembers, List.map_cons, map_compactMembers level rest, spellMembers]
    simp [toList_compact level value, quote, quoteChars, Spacing.none]

end

mutual

/-- Pretty text starts lines. -/
theorem toList_prettyAt (level : Nat) : ∀ v : Json, (v.prettyAt level).toList = v.spell .lines level
  | null | bool true | bool false => rfl
  | int _ | double _ | string _ => String.toList_ofList
  | array items => by
    have hpieces := map_prettyItems (level + 1) items
    rw [spell, ← hpieces, ← toList_block]
    rfl
  | object members => by
    have hpieces := map_prettyMembers (level + 1) members
    rw [spell, ← hpieces, ← toList_block]
    rfl

theorem map_prettyItems (level : Nat) : ∀ items : List Json,
    (prettyItems level items).map String.toList = spellItems .lines level items
  | [] => rfl
  | item :: rest => by
    rw [prettyItems, List.map_cons, toList_prettyAt level item, map_prettyItems level rest]
    rfl

theorem map_prettyMembers (level : Nat) : ∀ members : List (String × Json),
    (prettyMembers level members).map String.toList = spellMembers .lines level members
  | [] => rfl
  | (key, value) :: rest => by
    rw [prettyMembers, List.map_cons, map_prettyMembers level rest, spellMembers]
    simp [toList_prettyAt level value, quote, quoteChars, Spacing.lines]

end

end Json

end ConditionTree
