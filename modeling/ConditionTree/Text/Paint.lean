/-!
# Terminal colors

Text is painted by wrapping it in escape sequences. Whether colors are on is a parameter of
everything that prints, never a state.
-/

namespace ConditionTree

inductive Style
  | bold
  | red
  | green
  | yellow
  | blue
  | magenta
  | cyan
  | grey
deriving DecidableEq, Repr

namespace Style

def code : Style → String
  | bold => "1"
  | red => "31"
  | green => "32"
  | yellow => "33"
  | blue => "34"
  | magenta => "35"
  | cyan => "36"
  | grey => "90"

/-- The sequence that turns the style on. -/
def start (s : Style) : String :=
  "\x1b[" ++ s.code ++ "m"

/-- The sequence that turns every style off. -/
def reset : String :=
  "\x1b[0m"

/-- Turns the style on again after every reset inside the text. -/
def resume (s : Style) : List Char → List Char
  | '\x1b' :: '[' :: '0' :: 'm' :: rest => reset.toList ++ s.start.toList ++ resume s rest
  | c :: rest => c :: resume s rest
  | [] => []

/-- The text in the style, or as it is if colors are off. -/
def paint (color : Bool) (s : Style) (text : String) : String :=
  if color then s.start ++ String.ofList (s.resume text.toList) ++ reset else text

@[simp] theorem paint_false (s : Style) (text : String) : paint false s text = text := rfl

/-! ### Texts under their colors -/

variable {s : Style} {cs ds : List Char}

end Style

end ConditionTree
