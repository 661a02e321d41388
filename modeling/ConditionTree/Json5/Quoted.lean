import ConditionTree.Json5.Space

/-!
# Strings and identifiers

Strings stand in single or double quotes; a key may be an identifier as well. Escapes by number name
code units, so a character beyond them takes two escapes, which have to be a complete pair.
-/

namespace ConditionTree.Json5

def hexValue? (c : Char) : Option Nat :=
  if c.isDigit then some (c.toNat - '0'.toNat)
  else if 'a' ≤ c ∧ c ≤ 'f' then some (c.toNat - 'a'.toNat + 10)
  else if 'A' ≤ c ∧ c ≤ 'F' then some (c.toNat - 'A'.toNat + 10)
  else none

/-- The number that hexadecimal digits write, if all characters are such digits. -/
def hexNumber? (cs : List Char) : Option Nat :=
  (cs.mapM hexValue?).map fun digits => digits.foldl (16 * · + ·) 0

/-- The code unit of four digits, with the rest. -/
def codeUnit : List Char → Option (Nat × List Char)
  | a :: b :: c :: d :: rest => (hexNumber? [a, b, c, d]).map fun n => (n, rest)
  | _ => none

def isHighSurrogate (n : Nat) : Bool :=
  0xD800 ≤ n && n ≤ 0xDBFF

def isLowSurrogate (n : Nat) : Bool :=
  0xDC00 ≤ n && n ≤ 0xDFFF

/-- The character of one code unit or of a pair, after the `\u` of the first. -/
def codePoint (cs : List Char) : Option (Char × List Char) := do
  let (high, rest) ← codeUnit cs
  if isLowSurrogate high then none
  else if isHighSurrogate high then
    match rest with
    | '\\' :: 'u' :: rest =>
      let (low, rest) ← codeUnit rest
      if isLowSurrogate low then
        some (Char.ofNat (0x10000 + (high - 0xD800) * 0x400 + (low - 0xDC00)), rest)
      else none
    | _ => none
  else some (Char.ofNat high, rest)

/-- What an escape stands for, after its backslash: a character, or nothing for the end of a line.
A digit stands for nothing, but a zero that no digit follows. -/
def escape : List Char → Option (Option Char × List Char)
  | 'b' :: rest => some (some '\x08', rest)
  | 't' :: rest => some (some '\t', rest)
  | 'n' :: rest => some (some '\n', rest)
  | 'v' :: rest => some (some '\x0b', rest)
  | 'f' :: rest => some (some '\x0c', rest)
  | 'r' :: rest => some (some '\r', rest)
  | '0' :: rest => if (rest.head?.any Char.isDigit) then none else some (some '\x00', rest)
  | 'x' :: a :: b :: rest => (hexNumber? [a, b]).map fun n => (some (Char.ofNat n), rest)
  | 'u' :: rest => (codePoint rest).map fun (c, rest) => (some c, rest)
  | '\r' :: '\n' :: rest => some (none, rest)
  | c :: rest =>
    if isLineEnd c then some (none, rest)
    else if c.isDigit || c == 'x' then none
    else some (some c, rest)
  | [] => none

theorem length_codeUnit {cs rest : List Char} {n : Nat} (h : codeUnit cs = some (n, rest)) :
    rest.length < cs.length := by
  unfold codeUnit at h
  split at h
  · obtain ⟨_, _, h⟩ := Option.map_eq_some_iff.1 h
    cases h
    simp only [List.length_cons]
    omega
  · cases h

theorem length_codePoint {cs rest : List Char} {c : Char} (h : codePoint cs = some (c, rest)) :
    rest.length < cs.length := by
  unfold codePoint at h
  obtain ⟨⟨high, r⟩, hr, h⟩ := Option.bind_eq_some_iff.1 h
  have hlt := length_codeUnit hr
  simp only at h
  split at h
  · cases h
  · split at h
    · split at h
      · obtain ⟨⟨low, r'⟩, hr', h⟩ := Option.bind_eq_some_iff.1 h
        have hlt' := length_codeUnit hr'
        simp only [Option.ite_none_right_eq_some, Option.some.injEq, Prod.mk.injEq] at h
        obtain ⟨-, -, rfl⟩ := h
        simp only [List.length_cons] at hlt
        omega
      · cases h
    · simp only [Option.some.injEq, Prod.mk.injEq] at h
      exact h.2 ▸ hlt

theorem length_escape {cs rest : List Char} {o : Option Char} (h : escape cs = some (o, rest)) :
    rest.length < cs.length := by
  unfold escape at h
  split at h
  case h_7 =>
    simp only [Option.ite_none_left_eq_some, Option.some.injEq, Prod.mk.injEq] at h
    simp [← h.2.2]
  case h_8 =>
    obtain ⟨_, _, h⟩ := Option.map_eq_some_iff.1 h
    cases h
    simp only [List.length_cons]
    omega
  case h_9 =>
    obtain ⟨⟨c, r⟩, hr, h⟩ := Option.map_eq_some_iff.1 h
    have := length_codePoint hr
    cases h
    simp only [List.length_cons]
    omega
  case h_11 =>
    split at h
    · cases h
      simp
    · simp only [Option.ite_none_left_eq_some, Option.some.injEq, Prod.mk.injEq] at h
      simp [← h.2.2]
  all_goals cases h
  all_goals simp only [List.length_cons]
  all_goals omega

/-- The characters of a string after its opening quote, with the text after its closing one. A line
may not break inside a string, but for the separators U+2028 and U+2029. -/
def quoted (quote : Char) : List Char → Option (List Char × List Char)
  | [] => none
  | c :: rest =>
    if c = quote then some ([], rest)
    else if c = '\\' then
      match h : escape rest with
      | some (o, rest') =>
        have := length_escape h
        (quoted quote rest').map fun (s, tail) => (o.toList ++ s, tail)
      | none => none
    else if c = '\n' ∨ c = '\r' then none
    else (quoted quote rest).map fun (s, tail) => (c :: s, tail)
termination_by cs => cs.length

def isIdentifierStart (c : Char) : Bool :=
  c == '$' || c == '_' || Text.isLetter c

def isIdentifierPart (c : Char) : Bool :=
  isIdentifierStart c || Text.isMark c || c == '\u200c' || c == '\u200d'

/-- The longest run of characters that may stand inside an identifier, with the rest. An escape
stands for its character, which has to be one of them. -/
def identifierTail : List Char → List Char × List Char
  | [] => ([], [])
  | '\\' :: 'u' :: rest =>
    match h : codePoint rest with
    | some (c, rest') =>
      if isIdentifierPart c then
        have := length_codePoint h
        let (s, tail) := identifierTail rest'
        (c :: s, tail)
      else ([], '\\' :: 'u' :: rest)
    | none => ([], '\\' :: 'u' :: rest)
  | c :: rest =>
    if isIdentifierPart c then
      let (s, tail) := identifierTail rest
      (c :: s, tail)
    else ([], c :: rest)
termination_by cs => cs.length

/-- The first character of an identifier, with the rest. -/
def identifierHead : List Char → Option (Char × List Char)
  | '\\' :: 'u' :: rest => (codePoint rest).filter fun (c, _) => isIdentifierStart c
  | c :: rest => if isIdentifierStart c then some (c, rest) else none
  | [] => none

/-- An identifier, with the rest. -/
def identifier (cs : List Char) : Option (List Char × List Char) :=
  (identifierHead cs).map fun (c, rest) =>
    let (s, tail) := identifierTail rest
    (c :: s, tail)

/-- The key of a member, with the rest. -/
def key : List Char → Option (String × List Char)
  | '"' :: rest => (quoted '"' rest).map fun (s, tail) => (String.ofList s, tail)
  | '\'' :: rest => (quoted '\'' rest).map fun (s, tail) => (String.ofList s, tail)
  | cs => (identifier cs).map fun (s, tail) => (String.ofList s, tail)

end ConditionTree.Json5
