import ConditionTree.Text.Letter

/-!
# White space and comments

What may stand between the tokens of a JSON5 text.
-/

namespace ConditionTree.Json5

def isLineEnd (c : Char) : Bool :=
  c == '\n' || c == '\r' || c == '\u2028' || c == '\u2029'

def isSpace (c : Char) : Bool :=
  9 ≤ c.toNat && c.toNat ≤ 13 || c == '\u2028' || c == '\u2029' || c == '\ufeff' ||
    Text.isSpaceSeparator c

/-- Where a skipped text stands. -/
inductive Skipping
  | space
  | lineComment
  | blockComment

/-- Skips from inside space or a comment. A block comment has to be closed, a line comment may end
with the text. -/
def skipFrom : Skipping → List Char → Option (List Char)
  | .space, '/' :: '/' :: rest => skipFrom .lineComment rest
  | .space, '/' :: '*' :: rest => skipFrom .blockComment rest
  | .space, c :: rest => if isSpace c then skipFrom .space rest else some (c :: rest)
  | .space, [] => some []
  | .lineComment, c :: rest =>
    if isLineEnd c then skipFrom .space rest else skipFrom .lineComment rest
  | .lineComment, [] => some []
  | .blockComment, '*' :: '/' :: rest => skipFrom .space rest
  | .blockComment, _ :: rest => skipFrom .blockComment rest
  | .blockComment, [] => none

/-- The text from its first token on. -/
def skip (cs : List Char) : Option (List Char) :=
  skipFrom .space cs

end ConditionTree.Json5
