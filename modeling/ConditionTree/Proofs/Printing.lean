import ConditionTree.Proofs.Endings
import ConditionTree.Proofs.Normal
import ConditionTree.Proofs.Numerals
import ConditionTree.Proofs.Spelling

/-!
# Printed texts read back

A value is read back from its text if its numbers are in range (`IsExact`), in whatever order its members stand; a number
out of the range of its type becomes another one. As a document only normal values are read back as they are, since of two
members of one name only one is kept. The bound on the steps of the reader is the length of the text that is left, and
each piece between brackets is shorter than the rest it begins.
-/

namespace ConditionTree

open Json5

variable {tail : List Char}

/-! ### Values that texts keep -/

namespace Json

mutual

/-- A value that its text keeps: whole numbers of 64 bits and finite doubles. Members may stand in any order, and keys
may be repeated. -/
def IsExact : Json → Prop
  | null | bool _ | string _ => True
  | int n => -0x8000000000000000 ≤ n ∧ n < 0x10000000000000000
  | double x => x.isFinite
  | array items => AreExact items
  | object members => HoldExact members

def AreExact : List Json → Prop
  | [] => True
  | item :: rest => item.IsExact ∧ AreExact rest

def HoldExact : List (String × Json) → Prop
  | [] => True
  | (_, value) :: rest => value.IsExact ∧ HoldExact rest

end

theorem holdExact_iff {members : List (String × Json)} : HoldExact members ↔ ∀ kv ∈ members, kv.2.IsExact := by
  induction members with
  | nil => simp [HoldExact]
  | cons kv rest ih => simp [HoldExact, ih]

mutual

theorem IsNormal.isExact : ∀ {v : Json}, v.IsNormal → v.IsExact
  | null, _ | bool _, _ | string _, _ => trivial
  | int _, h | double _, h => h
  | array _, h => AreNormal.areExact h
  | object _, h => HoldNormal.holdExact h.2

theorem AreNormal.areExact : ∀ {items : List Json}, AreNormal items → AreExact items
  | [], _ => trivial
  | _ :: _, h => ⟨h.1.isExact, AreNormal.areExact h.2⟩

theorem HoldNormal.holdExact : ∀ {members : List (String × Json)}, HoldNormal members → HoldExact members
  | [], _ => trivial
  | (_, _) :: _, h => ⟨h.1.isExact, HoldNormal.holdExact h.2⟩

end

end Json

/-! ### Strings -/

/-- A raw character stands for itself. -/
theorem quoted_raw {c : Char} (rest : List Char) (hq : c ≠ '"') (hb : c ≠ '\\') (hn : c ≠ '\n')
    (hr : c ≠ '\r') :
    quoted '"' (c :: rest) = (quoted '"' rest).map fun (s, tail) => (c :: s, tail) := by
  rw [quoted, if_neg hq, if_neg hb, if_neg (by simp [hn, hr])]

theorem quoted_escaped {cs rest : List Char} {c : Char} (h : Json5.escape cs = some (some c, rest)) :
    quoted '"' ('\\' :: cs) = (quoted '"' rest).map fun (s, tail) => (c :: s, tail) := by
  rw [quoted, if_neg (by decide), if_pos rfl]
  split
  · rename_i o rest' heq
    rw [h] at heq
    cases heq
    rfl
  · rename_i heq
    rw [h] at heq
    cases heq

/-- Every character is read back from inside quotes. -/
theorem quoted_escape (c : Char) (rest : List Char) :
    quoted '"' (Json.escape c ++ rest) = (quoted '"' rest).map fun (s, tail) => (c :: s, tail) := by
  unfold Json.escape
  split_ifs with hquote hbackslash hn hr ht hb hf hcontrol
  · subst hquote
    exact quoted_escaped rfl
  · subst hbackslash
    exact quoted_escaped rfl
  · subst hn
    exact quoted_escaped rfl
  · subst hr
    exact quoted_escaped rfl
  · subst ht
    exact quoted_escaped rfl
  · subst hb
    exact quoted_escaped rfl
  · subst hf
    exact quoted_escaped rfl
  · obtain ⟨n, hlt, rfl⟩ : ∃ n < 0x20, c = Char.ofNat n := ⟨c.toNat, hcontrol, (Char.ofNat_toNat c).symm⟩
    refine quoted_escaped ?_
    interval_cases n <;> rfl
  · exact quoted_raw rest hquote hbackslash hn hr

theorem quoted_flatMap_escape (s tail : List Char) :
    quoted '"' (s.flatMap Json.escape ++ '"' :: tail) = some (s, tail) := by
  induction s with
  | nil => rw [List.flatMap_nil, List.nil_append, quoted, if_pos rfl]
  | cons c s ih => rw [List.flatMap_cons, List.append_assoc, quoted_escape, ih]; rfl

/-! ### Reading what was written -/

section Reading

variable {c : Char} {cs gap : List Char} {fuel level : Nat} {sp : Json.Spacing} {v : Json}

/-- Only a slash may begin a comment. -/
theorem skip_cons (hslash : c ≠ '/') (cs : List Char) :
    skip (c :: cs) = if isSpace c then skip cs else some (c :: cs) := by
  unfold skip
  rw [skipFrom] <;> intro rest hc <;> exact absurd hc hslash

theorem skip_of_isSpace (hgap : ∀ c ∈ gap, isSpace c) (cs : List Char) : skip (gap ++ cs) = skip cs := by
  induction gap with
  | nil => rfl
  | cons c gap ih =>
    have hc : isSpace c := hgap c (by simp)
    have hslash : c ≠ '/' := by
      rintro rfl
      cases hc
    rw [List.cons_append, skip_cons hslash, if_pos hc, ih fun c hc => hgap c (by simp [hc])]

theorem skip_token (hgap : ∀ c ∈ gap, isSpace c) (hspace : isSpace c = false) (hslash : c ≠ '/') (cs : List Char) :
    skip (gap ++ c :: cs) = some (c :: cs) := by
  rw [skip_of_isSpace hgap, skip_cons hslash, if_neg (by simp [hspace])]

/-! ### Values without others inside -/

/-- Whether a character may begin a value, and no other token. -/
def startsScalar (c : Char) : Bool :=
  startsNumber c || c == 'n' || c == 't' || c == 'f' || c == '"'

theorem startsScalar_ne (h : startsScalar c) :
    isSpace c = false ∧ c ≠ '/' ∧ c ≠ '[' ∧ c ≠ ']' ∧ c ≠ '\x7b' ∧ c ≠ '\x7d' := by
  simp only [startsScalar, startsNumber, Bool.or_eq_true, beq_iff_eq] at h
  rcases h with ((((rfl | hdigit) | rfl) | rfl) | rfl) | rfl
  · decide
  · obtain ⟨n, hn, rfl⟩ := Json.exists_digit hdigit
    interval_cases n <;> decide
  all_goals decide

theorem scalar_of_startsNumber (hc : startsNumber c) (cs : List Char) : scalar (c :: cs) = number (c :: cs) := by
  unfold scalar
  split
  case h_6 => rfl
  all_goals
    rename_i heq
    cases heq
    cases hc

theorem value_of_startsScalar (hgap : ∀ c ∈ gap, isSpace c) (hc : startsScalar c) (cs : List Char) :
    value (fuel + 1) (gap ++ c :: cs) = scalar (c :: cs) := by
  obtain ⟨hspace, hslash, hbracket, -, hbrace, -⟩ := startsScalar_ne hc
  rw [value, skip_token hgap hspace hslash]
  simp only [Option.bind_eq_bind, Option.bind_some]
  split
  · rename_i heq
    cases heq
    exact absurd rfl hbracket
  · rename_i heq
    cases heq
    exact absurd rfl hbrace
  · rfl

/-- Whether a value holds no other one. -/
def Json.isAtom : Json → Bool
  | .array _ | .object _ => false
  | _ => true

/-- An atom is read back. -/
theorem scalar_spell (sp : Json.Spacing) (level : Nat) (hv : v.IsExact) (hatom : v.isAtom) (ht : endsNumber tail) :
    ∃ c cs, v.spell sp level = c :: cs ∧ startsScalar c ∧ scalar (c :: (cs ++ tail)) = some (v, tail) := by
  cases v with
  | null => exact ⟨_, _, rfl, rfl, rfl⟩
  | bool b => cases b <;> exact ⟨_, _, rfl, rfl, rfl⟩
  | int n =>
    obtain ⟨c, cs, htext, hc⟩ := startsNumber_intText n
    have hread := number_intText hv.1 hv.2 ht
    rw [htext] at hread
    exact ⟨c, cs, htext, by simp [startsScalar, hc], (scalar_of_startsNumber hc _).trans hread⟩
  | double x =>
    obtain ⟨c, cs, htext, hc⟩ := startsNumber_jsonText hv
    have hread := number_jsonText hv ht
    rw [htext] at hread
    exact ⟨c, cs, htext, by simp [startsScalar, hc], (scalar_of_startsNumber hc _).trans hread⟩
  | string s =>
    refine ⟨'"', s.toList.flatMap Json.escape ++ ['"'], rfl, rfl, ?_⟩
    have hread := quoted_flatMap_escape s.toList tail
    rw [List.append_assoc, List.singleton_append, scalar, hread, Option.map_some]
    dsimp only
    rw [String.ofList_toList]
  | array items | object members => cases hatom

/-- A value begins with a token that closes nothing. -/
theorem exists_head_spell (sp : Json.Spacing) (level : Nat) (hv : v.IsExact) :
    ∃ c cs, v.spell sp level = c :: cs ∧ isSpace c = false ∧ c ≠ '/' ∧ c ≠ ']' ∧ c ≠ '\x7d' := by
  by_cases hatom : v.isAtom
  · obtain ⟨c, cs, hspell, hc, -⟩ := scalar_spell sp level hv hatom (show endsNumber [] from rfl)
    obtain ⟨hspace, hslash, -, hbracket, -, hbrace⟩ := startsScalar_ne hc
    exact ⟨c, cs, hspell, hspace, hslash, hbracket, hbrace⟩
  · cases v with
    | array items => exact ⟨_, _, rfl, by decide⟩
    | object members => exact ⟨_, _, rfl, by decide⟩
    | _ => exact absurd rfl hatom

theorem value_spell_of_isAtom (hv : v.IsExact) (hatom : v.isAtom) (hfuel : (v.spell sp level).length ≤ fuel)
    (hgap : ∀ c ∈ gap, isSpace c) (ht : endsNumber tail) :
    value fuel (gap ++ (v.spell sp level ++ tail)) = some (v, tail) := by
  obtain ⟨c, cs, hspell, hc, hread⟩ := scalar_spell sp level hv hatom ht
  rw [hspell] at hfuel ⊢
  cases fuel with
  | zero => cases hfuel
  | succ fuel => rw [List.cons_append, value_of_startsScalar hgap hc, hread]

/-! ### Lists between brackets -/

theorem endsNumber_of_isSpace (hc : isSpace c) (cs : List Char) : endsNumber (c :: cs) := by
  by_contra hnot
  simp only [endsNumber, List.head?_cons, Option.all_some, Bool.not_eq_true', Bool.not_eq_false, Bool.or_eq_true,
    beq_iff_eq] at hnot
  rcases hnot with ((((hdigit | rfl) | rfl) | rfl) | rfl) | rfl
  · obtain ⟨n, hn, rfl⟩ := Json.exists_digit hdigit
    interval_cases n <;> cases hc
  all_goals cases hc

/-- What follows a piece is no part of a number. -/
theorem endsNumber_closeList {closing : Char} (hclosing : endsNumber [closing]) (pieces : List (List Char)) :
    endsNumber (Json.closeList sp level closing pieces ++ tail) := by
  cases pieces with
  | cons piece rest => rfl
  | nil =>
    rw [Json.closeList]
    cases hline : sp.line level with
    | nil => exact hclosing
    | cons c cs =>
      have hc : isSpace c := sp.isSpace_line level c (by simp [hline])
      exact endsNumber_of_isSpace hc _

/-- After the last piece stands the closing bracket. -/
theorem skip_closeList_nil {closing : Char} (hspace : isSpace closing = false) (hslash : closing ≠ '/')
    (tail : List Char) :
    skip (Json.closeList sp level closing [] ++ tail) = some (closing :: tail) := by
  rw [Json.closeList, List.append_assoc, List.singleton_append]
  exact skip_token (sp.isSpace_line level) hspace hslash tail

/-- After any other piece stands a comma, and what follows it reads as what follows an opening bracket. -/
theorem skip_closeList_cons (closing : Char) (piece : List Char) (pieces : List (List Char)) (tail : List Char) :
    skip (Json.closeList sp level closing (piece :: pieces) ++ tail) =
      some (',' :: (Json.bracketBody sp level closing (piece :: pieces) ++ tail)) := by
  have hbody : Json.closeList sp level closing (piece :: pieces) =
      ',' :: Json.bracketBody sp level closing (piece :: pieces) := rfl
  rw [hbody, List.cons_append, skip_cons (by decide), if_neg (by decide)]

variable {items : List Json} {members : List (String × Json)} {key : String}

/-- Reading goes on with the next item. -/
theorem items_cons (hv : v.IsExact)
    (hvalue : ∀ tail, endsNumber tail → value fuel (v.spell sp (level + 1) ++ tail) = some (v, tail))
    (hitems : items ≠ [] → Json5.items fuel
      (Json.bracketBody sp level ']' (Json.spellItems sp (level + 1) items) ++ tail) = some (items, tail)) :
    Json5.items (fuel + 1) (Json.bracketBody sp level ']' (Json.spellItems sp (level + 1) (v :: items)) ++ tail) =
      some (v :: items, tail) := by
  obtain ⟨c, cs, hspell, hspace, hslash, hbracket, -⟩ := exists_head_spell sp (level + 1) hv
  have hread := hvalue (Json.closeList sp level ']' (Json.spellItems sp (level + 1) items) ++ tail)
    (endsNumber_closeList rfl _)
  have hskip := skip_token (sp.isSpace_line (level + 1)) hspace hslash
    (cs ++ (Json.closeList sp level ']' (Json.spellItems sp (level + 1) items) ++ tail))
  rw [Json.spellItems, Json.bracketBody, hspell, List.append_assoc, List.append_assoc, List.cons_append, Json5.items,
    hskip]
  rw [hspell, List.cons_append] at hread
  simp only [Option.bind_eq_bind, Option.bind_some]
  split
  · rename_i heq
    cases heq
    exact absurd rfl hbracket
  · rw [hread]
    simp only [Option.bind_some]
    cases items with
    | nil =>
      rw [Json.spellItems, skip_closeList_nil rfl (by decide)]
      rfl
    | cons w more =>
      have hnext := hitems (by simp)
      rw [Json.spellItems] at hnext ⊢
      rw [skip_closeList_cons]
      simp only [Option.bind_some, hnext]

theorem key_quoteChars (name : String) (rest : List Char) :
    Json5.key (Json.quoteChars name ++ rest) = some (name, rest) := by
  have hread := quoted_flatMap_escape name.toList rest
  rw [Json.quoteChars, List.cons_append, List.append_assoc, List.singleton_append, Json5.key, hread, Option.map_some]
  dsimp only
  rw [String.ofList_toList]

/-- Reading goes on with the next member. -/
theorem members_cons
    (hvalue : ∀ tail, endsNumber tail → value fuel (sp.colon ++ (v.spell sp (level + 1) ++ tail)) = some (v, tail))
    (hmembers : members ≠ [] → Json5.members fuel
      (Json.bracketBody sp level '\x7d' (Json.spellMembers sp (level + 1) members) ++ tail) = some (members, tail)) :
    Json5.members (fuel + 1)
        (Json.bracketBody sp level '\x7d' (Json.spellMembers sp (level + 1) ((key, v) :: members)) ++ tail) =
      some ((key, v) :: members, tail) := by
  have hread := hvalue (Json.closeList sp level '\x7d' (Json.spellMembers sp (level + 1) members) ++ tail)
    (endsNumber_closeList rfl _)
  have hskip := fun rest => skip_token (c := '"') (sp.isSpace_line (level + 1)) rfl (by decide)
    (key.toList.flatMap Json.escape ++ ['"'] ++ rest)
  have hkey := key_quoteChars key
  simp only [Json.quoteChars, List.cons_append] at hkey
  rw [Json.spellMembers, Json.bracketBody, Json.quoteChars]
  simp only [List.append_assoc, List.cons_append] at hskip hkey ⊢
  rw [Json5.members, hskip]
  simp only [Option.bind_eq_bind, Option.bind_some]
  split
  · rename_i heq
    cases heq
  · rw [hkey]
    simp only [Option.bind_some]
    rw [skip_cons (c := ':') (by decide), if_neg (by decide)]
    simp only [Option.bind_some, hread]
    cases members with
    | nil =>
      rw [Json.spellMembers, skip_closeList_nil rfl (by decide)]
      rfl
    | cons w more =>
      have hnext := hmembers (by simp)
      rw [Json.spellMembers] at hnext ⊢
      rw [skip_closeList_cons]
      simp only [Option.bind_some, hnext]

mutual

/-- **A value is read back from its text**, whatever stands before it as space and after it as no part of a number. -/
theorem value_spell : ∀ {v : Json} {level fuel : Nat} {gap tail : List Char}, v.IsExact →
    (v.spell sp level).length ≤ fuel → (∀ c ∈ gap, isSpace c) → endsNumber tail →
      value fuel (gap ++ (v.spell sp level ++ tail)) = some (v, tail)
  | .array items, level, fuel + 1, gap, tail, hv, hfuel, hgap, ht => by
    have hlength : (Json.bracketBody sp level ']' (Json.spellItems sp (level + 1) items)).length ≤ fuel :=
      Nat.le_of_succ_le_succ hfuel
    have hread : Json5.items fuel (Json.bracketBody sp level ']' (Json.spellItems sp (level + 1) items) ++ tail) =
        some (items, tail) := items_spell hv hlength
    rw [Json.spell, List.cons_append, value, skip_token hgap rfl (by decide)]
    simp only [Option.bind_eq_bind, Option.bind_some, hread]
  | .object members, level, fuel + 1, gap, tail, hv, hfuel, hgap, ht => by
    have hlength : (Json.bracketBody sp level '\x7d' (Json.spellMembers sp (level + 1) members)).length ≤ fuel :=
      Nat.le_of_succ_le_succ hfuel
    have hread : Json5.members fuel
        (Json.bracketBody sp level '\x7d' (Json.spellMembers sp (level + 1) members) ++ tail) = some (members, tail) :=
      members_spell hv hlength
    rw [Json.spell, List.cons_append, value, skip_token hgap rfl (by decide)]
    simp only [Option.bind_eq_bind, Option.bind_some, hread]
  | .array _, _, 0, _, _, _, hfuel, _, _ | .object _, _, 0, _, _, _, hfuel, _, _ => by
    exact absurd hfuel (by simp [Json.spell])
  | .null, _, _, _, _, hv, hfuel, hgap, ht | .bool _, _, _, _, _, hv, hfuel, hgap, ht
  | .int _, _, _, _, _, hv, hfuel, hgap, ht | .double _, _, _, _, _, hv, hfuel, hgap, ht
  | .string _, _, _, _, _, hv, hfuel, hgap, ht => value_spell_of_isAtom hv rfl hfuel hgap ht

theorem items_spell : ∀ {items : List Json} {level fuel : Nat} {tail : List Char}, Json.AreExact items →
    (Json.bracketBody sp level ']' (Json.spellItems sp (level + 1) items)).length ≤ fuel →
      Json5.items fuel (Json.bracketBody sp level ']' (Json.spellItems sp (level + 1) items) ++ tail) =
        some (items, tail)
  | _, _, 0, _, _, hfuel => absurd hfuel (Nat.not_le.mpr (Json.length_bracketBody_pos ..))
  | [], level, fuel + 1, tail, _, _ => by
    rw [Json.spellItems, Json.bracketBody, List.singleton_append, Json5.items, skip_cons (c := ']') (by decide),
      if_neg (by decide)]
    rfl
  | v :: items, level, fuel + 1, tail, h, hfuel => by
    obtain ⟨hpiece, hrest⟩ :=
      Json.length_bracketBody sp level ']' (v.spell sp (level + 1)) (Json.spellItems sp (level + 1) items)
    rw [← Json.spellItems] at hpiece hrest
    refine items_cons h.1 (fun tail ht => ?_) fun hne => ?_
    · have hread : value fuel ([] ++ (v.spell sp (level + 1) ++ tail)) = some (v, tail) :=
        value_spell h.1 (by omega) (by simp) ht
      exact hread
    · have hlength := hrest (by simpa [Json.spellItems_eq_nil_iff] using hne)
      exact items_spell h.2 (by omega)

theorem members_spell : ∀ {members : List (String × Json)} {level fuel : Nat} {tail : List Char},
    Json.HoldExact members →
    (Json.bracketBody sp level '\x7d' (Json.spellMembers sp (level + 1) members)).length ≤ fuel →
      Json5.members fuel (Json.bracketBody sp level '\x7d' (Json.spellMembers sp (level + 1) members) ++ tail) =
        some (members, tail)
  | _, _, 0, _, _, hfuel => absurd hfuel (Nat.not_le.mpr (Json.length_bracketBody_pos ..))
  | [], level, fuel + 1, tail, _, _ => by
    rw [Json.spellMembers, Json.bracketBody, List.singleton_append, Json5.members, skip_cons (c := '\x7d') (by decide),
      if_neg (by decide)]
    rfl
  | (key, v) :: members, level, fuel + 1, tail, h, hfuel => by
    obtain ⟨hpiece, hrest⟩ := Json.length_bracketBody sp level '\x7d'
      (Json.quoteChars key ++ ':' :: (sp.colon ++ v.spell sp (level + 1))) (Json.spellMembers sp (level + 1) members)
    rw [← Json.spellMembers] at hpiece hrest
    simp only [List.length_append, List.length_cons] at hpiece
    refine members_cons (fun tail ht => ?_) fun hne => ?_
    · exact value_spell h.1 (by omega) sp.isSpace_colon ht
    · have hlength := hrest (by simpa [Json.spellMembers_eq_nil_iff] using hne)
      exact members_spell h.2 (by omega)

end

end Reading

/-! ### Whole texts -/

namespace Json5

variable {sp : Json.Spacing} {v : Json}

theorem read?_of_spell {text : String} {tail : List Char} (hv : v.IsExact) (ht : endsNumber tail)
    (hskip : skip tail = some []) (htext : text.toList = v.spell sp 0 ++ tail) : read? text = some v := by
  have hlength : (v.spell sp 0).length ≤ (v.spell sp 0 ++ tail).length + 1 := by
    rw [List.length_append]
    omega
  have hread : value ((v.spell sp 0 ++ tail).length + 1) ([] ++ (v.spell sp 0 ++ tail)) = some (v, tail) :=
    value_spell hv hlength (by simp) ht
  rw [List.nil_append] at hread
  rw [read?, htext]
  simp only [Option.bind_eq_bind, hread, Option.bind_some, hskip]

theorem exists_toList_jsonText (config : Config) (v : Json) :
    ∃ sp, (CommandLine.jsonText config v).toList = v.spell sp 0 := by
  unfold CommandLine.jsonText
  split_ifs
  · exact ⟨.lines, Json.toList_prettyAt 0 v⟩
  · exact ⟨.none, Json.toList_compact 0 v⟩

/-- No text of a value ends in a newline. -/
theorem getLast?_spell (sp : Json.Spacing) (v : Json) (level : Nat) : (v.spell sp level).getLast? ≠ some '\n' := by
  cases v with
  | null => simp [Json.spell]
  | bool b => cases b <;> simp [Json.spell]
  | int n => exact fun h => newline_notMem_of_printable (printable_intText n) (List.mem_of_getLast? h)
  | double x => exact fun h => newline_notMem_of_printable (printable_jsonText x) (List.mem_of_getLast? h)
  | string s => simp [Json.spell, Json.quoteChars, List.getLast?_cons]
  | array items => simp [Json.spell, List.getLast?_cons, Json.getLast?_bracketBody]
  | object members => simp [Json.spell, List.getLast?_cons, Json.getLast?_bracketBody]

theorem getLast?_jsonText (config : Config) (v : Json) :
    (CommandLine.jsonText config v).toList.getLast? ≠ some '\n' := by
  obtain ⟨sp, htext⟩ := exists_toList_jsonText config v
  rw [htext]
  exact getLast?_spell sp v 0

theorem dropNewlines_jsonText (config : Config) (v : Json) :
    Diff.dropNewlines (CommandLine.jsonText config v) = CommandLine.jsonText config v :=
  dropNewlines_eq_self_iff.mpr (getLast?_jsonText config v)

theorem endLine_jsonText (config : Config) (v : Json) :
    CommandLine.endLine (CommandLine.jsonText config v) = CommandLine.jsonText config v ++ "\n" :=
  CommandLine.endLine_of_getLast? (getLast?_jsonText config v)

/-- **Printed text is read back**, in both forms and with a newline at its end or without. -/
theorem read?_jsonText (config : Config) (hv : v.IsExact) :
    read? (CommandLine.jsonText config v) = some v ∧ read? (CommandLine.jsonText config v ++ "\n") = some v := by
  obtain ⟨sp, htext⟩ := exists_toList_jsonText config v
  have hline : (CommandLine.jsonText config v ++ "\n").toList = v.spell sp 0 ++ ['\n'] := by
    rw [String.toList_append, htext]
    rfl
  exact ⟨read?_of_spell hv rfl rfl (htext.trans (List.append_nil _).symm), read?_of_spell hv rfl rfl hline⟩

/-- As a document a normal value is read back. -/
theorem document?_jsonText (config : Config) (hv : v.IsNormal) :
    document? (CommandLine.jsonText config v) = some v ∧
      document? (CommandLine.jsonText config v ++ "\n") = some v := by
  obtain ⟨hplain, hended⟩ := read?_jsonText config hv.isExact
  have hnormal := Json.normal_of_isNormal hv
  exact ⟨by rw [document?, hplain, Option.map_some, hnormal], by rw [document?, hended, Option.map_some, hnormal]⟩

end Json5

end ConditionTree
