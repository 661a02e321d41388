import ConditionTree.Proofs.Meaning

/-!
# Infix grammar

The usual way to read a line of conditions. Spaces end words and brackets stand for themselves. A word, or two words
with a comparator between them, is an atom; `&&` joins atoms and brackets to chains, `||` joins these to longer ones,
and brackets hold a chain of the latter kind. A word is an operand wherever an operand is expected, whatever it spells.

`Reads` is the grammar and `read?` a reader by descent that finds the reading. They agree (`read?_eq_some_iff`), so the
grammar gives a text one reading at most.
-/

namespace ConditionTree.Infix

inductive Token
  | opening
  | closing
  | word (text : String)
deriving DecidableEq, Repr

/-- Neither a space nor a bracket. -/
def isWordChar (c : Char) : Bool :=
  c != ' ' && c != '(' && c != ')'

/-- The tokens of a text. -/
def tokens : List Char → List Token
  | [] => []
  | c :: cs =>
    if c = ' ' then tokens cs
    else if c = '(' then .opening :: tokens cs
    else if c = ')' then .closing :: tokens cs
    else .word (String.ofList (c :: cs.takeWhile isWordChar)) :: tokens (cs.dropWhile isWordChar)
termination_by cs => cs.length
decreasing_by
  all_goals simp only [List.length_cons]
  all_goals have hle := (List.dropWhile_suffix (l := cs) isWordChar).length_le
  all_goals omega

/-- What is read: atoms by their text, joined by connectives. -/
inductive Formula
  | atom (text : String)
  | join (operator : Connective) (left right : Formula)
deriving DecidableEq, Repr

/-- The truth value under a valuation of the atoms by their text. -/
def Formula.value (v : String → Bool) : Formula → Bool
  | atom text => v text
  | join o l r => o.join (l.value v) (r.value v)

/-- The text of a comparison of two words. -/
def comparisonText (a : String) (o : Comparator) (b : String) : String :=
  a ++ " " ++ o.symbol ++ " " ++ b

/-- How tightly a part of a text holds together. -/
inductive Level
  /-- An atom or brackets. -/
  | factor
  /-- Parts joined by one connective. -/
  | chain (operator : Connective)
deriving DecidableEq, Repr

/-- What chains are made of: `&&` binds tighter than `||`. -/
def Level.below : Connective → Level
  | .and => factor
  | .or => chain .and

/-- The grammar. -/
inductive Reads : Level → List Token → Formula → Prop
  | operand (a : String) : Reads .factor [.word a] (.atom a)
  | comparison (a : String) (o : Comparator) (b : String) :
    Reads .factor [.word a, .word o.symbol, .word b] (.atom (comparisonText a o b))
  | brackets {ts : List Token} {f : Formula} (h : Reads (.chain .or) ts f) :
    Reads .factor (.opening :: ts ++ [.closing]) f
  | single (o : Connective) {ts : List Token} {f : Formula} (h : Reads (.below o) ts f) : Reads (.chain o) ts f
  | join (o : Connective) {ts us : List Token} {f g : Formula} (hf : Reads (.below o) ts f)
    (hg : Reads (.chain o) us g) : Reads (.chain o) (ts ++ .word o.symbol :: us) (.join o f g)

/-! ### The reader -/

/-- An atom that starts with a word, with the rest. -/
def readAtom (a : String) : List Token → Formula × List Token
  | .word w :: .word b :: rest =>
    match Comparator.ofSymbol? w with
    | some o => (.atom (comparisonText a o b), rest)
    | none => (.atom a, .word w :: .word b :: rest)
  | rest => (.atom a, rest)

/-- A part at the start of the tokens, with the rest. Every call takes a token or goes down a level, which bounds the
calls. -/
def read : Nat → Level → List Token → Option (Formula × List Token)
  | 0, _, _ => none
  | _ + 1, .factor, .word a :: rest => some (readAtom a rest)
  | n + 1, .factor, .opening :: rest =>
    match read n (.chain .or) rest with
    | some (f, .closing :: rest) => some (f, rest)
    | _ => none
  | _ + 1, .factor, _ => none
  | n + 1, .chain o, ts =>
    match read n (.below o) ts with
    | some (f, .word w :: rest) =>
      if w = o.symbol then (read n (.chain o) rest).map fun (g, rest) => (.join o f g, rest)
      else some (f, .word w :: rest)
    | result => result

/-- The formula that a whole text is read as. -/
def read? (text : String) : Option Formula :=
  let ts := tokens text.toList
  match read (3 * ts.length) (.chain .or) ts with
  | some (f, []) => some f
  | _ => none

/-- The grammar gives the text this reading. -/
def IsReading (text : String) (f : Formula) : Prop :=
  Reads (.chain .or) (tokens text.toList) f

variable {ts us rest : List Token} {f g : Formula} {level : Level} {n : Nat}

/-! ### The reader finds what the grammar gives -/

/-- No word that goes on with the part may follow it. -/
def Ends : Level → List Token → Prop
  | level, .word w :: _ => Comparator.ofSymbol? w = none ∧
      ∀ o : Connective, w = o.symbol → level = .factor ∨ o = .or ∧ level = .chain .and
  | _, _ => True

/-- How many calls a part of a level saves. -/
def Level.slack : Level → Nat
  | factor => 2
  | chain .and => 1
  | chain .or => 0

theorem Level.slack_below (o : Connective) : (below o).slack = (chain o).slack + 1 := by
  cases o <;> rfl

theorem Reads.length_pos (h : Reads level ts f) : 0 < ts.length := by
  induction h with
  | operand | comparison | brackets => simp
  | single o h ih => exact ih
  | join o hf hg ihf ihg =>
    simp only [List.length_append, List.length_cons]
    omega

theorem readAtom_of_ends (a : String) (h : Ends .factor rest) : readAtom a rest = (.atom a, rest) := by
  unfold readAtom
  split
  · rename_i w b rest
    have hnone : Comparator.ofSymbol? w = none := h.1
    simp [hnone]
  · rfl

/-- What ends a chain ends each of its parts, and so does the connective of the chain. -/
theorem Ends.below (o : Connective) (h : Ends (.chain o) rest) : Ends (.below o) rest := by
  unfold Ends at *
  split
  · rename_i w rest
    refine ⟨h.1, fun o' ho' => ?_⟩
    rcases h.2 o' ho' with hfactor | ⟨rfl, hand⟩
    · cases hfactor
    · cases hand
      exact .inl rfl
  · trivial

theorem ends_below_symbol (o : Connective) (rest : List Token) : Ends (.below o) (.word o.symbol :: rest) := by
  cases o with
  | and => exact ⟨rfl, fun _ _ => .inl rfl⟩
  | or =>
    refine ⟨rfl, fun o' ho' => .inr ⟨?_, rfl⟩⟩
    cases o' with
    | and => exact absurd ho' (by decide)
    | or => rfl

theorem read_single {o : Connective} (h : read n (.below o) ts = some (f, rest)) (hrest : Ends (.chain o) rest) :
    read (n + 1) (.chain o) ts = some (f, rest) := by
  rw [read, h]
  split
  · rename_i f' w rest' heq
    obtain ⟨rfl, rfl⟩ : f = f' ∧ rest = .word w :: rest' := by simpa using heq
    -- a chain goes on with its own connective only
    have hw : w ≠ o.symbol := by
      intro hw
      rcases hrest.2 o hw with hfactor | ⟨rfl, hand⟩
      · cases hfactor
      · cases hand
    rw [if_neg hw]
  · rfl

theorem read_join {o : Connective} (h : read n (.below o) ts = some (f, .word o.symbol :: us))
    (h' : read n (.chain o) us = some (g, rest)) : read (n + 1) (.chain o) ts = some (.join o f g, rest) := by
  rw [read, h]
  simp [h']

/-- **What the grammar gives is read**, with enough calls and up to an end. -/
theorem Reads.read_append (h : Reads level ts f) : ∀ {n : Nat} {rest : List Token}, Ends level rest →
    3 * ts.length ≤ n + level.slack → read n level (ts ++ rest) = some (f, rest) := by
  induction h with
  | operand a =>
    intro n rest hrest hn
    obtain ⟨n, rfl⟩ : ∃ k, n = k + 1 := ⟨n - 1, by simp [Level.slack] at hn; omega⟩
    rw [List.singleton_append, read, readAtom_of_ends a hrest]
  | comparison a o b =>
    intro n rest hrest hn
    obtain ⟨n, rfl⟩ : ∃ k, n = k + 1 := ⟨n - 1, by simp [Level.slack] at hn; omega⟩
    simp [read, readAtom]
  | @brackets ts f h ih =>
    intro n rest hrest hn
    have hlength : 3 * (ts.length + 2) ≤ n + 2 := by simpa [Level.slack] using hn
    obtain ⟨n, rfl⟩ : ∃ k, n = k + 1 := ⟨n - 1, by omega⟩
    have hinner : read n (.chain .or) (ts ++ .closing :: rest) = some (f, .closing :: rest) :=
      ih trivial (by simp only [Level.slack]; omega)
    simp [read, hinner]
  | @single o ts f h ih =>
    intro n rest hrest hn
    have hpos := h.length_pos
    have hslack := Level.slack_below o
    obtain ⟨n, rfl⟩ : ∃ k, n = k + 1 := ⟨n - 1, by cases o <;> simp only [Level.slack] at hn <;> omega⟩
    have hpart : read n (.below o) (ts ++ rest) = some (f, rest) := ih (hrest.below o) (by omega)
    exact read_single hpart hrest
  | @join o ts us f g hf hg ihf ihg =>
    intro n rest hrest hn
    have hpos := hf.length_pos
    have hslack := Level.slack_below o
    have hlength : 3 * (ts.length + (us.length + 1)) ≤ n + (Level.chain o).slack := by simpa using hn
    obtain ⟨n, rfl⟩ : ∃ k, n = k + 1 := ⟨n - 1, by cases o <;> simp only [Level.slack] at hlength <;> omega⟩
    have hleft : read n (.below o) (ts ++ .word o.symbol :: (us ++ rest)) = some (f, .word o.symbol :: (us ++ rest)) :=
      ihf (ends_below_symbol o _) (by omega)
    have hright : read n (.chain o) (us ++ rest) = some (g, rest) := ihg hrest (by omega)
    rw [List.append_assoc, List.cons_append]
    exact read_join hleft hright

/-! ### What the reader finds is given by the grammar -/

theorem reads_readAtom (a : String) (rest : List Token) :
    ∃ us, .word a :: rest = us ++ (readAtom a rest).2 ∧ Reads .factor us (readAtom a rest).1 := by
  unfold readAtom
  split
  · rename_i w b rest
    split
    · rename_i o ho
      rw [← Comparator.symbol_of_ofSymbol? ho]
      exact ⟨_, rfl, .comparison a o b⟩
    · exact ⟨[.word a], rfl, .operand a⟩
  · exact ⟨[.word a], rfl, .operand a⟩

theorem reads_of_read : ∀ {n : Nat} {level : Level} {ts rest : List Token} {f : Formula},
    read n level ts = some (f, rest) → ∃ us, ts = us ++ rest ∧ Reads level us f
  | 0, _, _, _, _, h => by simp [read] at h
  | n + 1, .factor, ts, rest, f, h => by
    cases ts with
    | nil => simp [read] at h
    | cons t ts =>
      cases t with
      | word a =>
        have hatom : readAtom a ts = (f, rest) := by simpa [read] using h
        have hreads := reads_readAtom a ts
        rwa [hatom] at hreads
      | opening =>
        rw [read] at h
        split at h
        · rename_i g rest' hinner
          obtain ⟨rfl, rfl⟩ : g = f ∧ rest' = rest := by simpa using h
          obtain ⟨us, rfl, hreads⟩ := reads_of_read hinner
          exact ⟨.opening :: us ++ [.closing], by simp, .brackets hreads⟩
        · cases h
      | closing => simp [read] at h
  | n + 1, .chain o, ts, rest, f, h => by
    rw [read] at h
    split at h
    · rename_i g w rest' hpart
      obtain ⟨us, rfl, hreads⟩ := reads_of_read hpart
      split_ifs at h with hw
      · subst hw
        obtain ⟨⟨g', rest''⟩, hmore, hjoin⟩ := Option.map_eq_some_iff.mp h
        obtain ⟨rfl, rfl⟩ : Formula.join o g g' = f ∧ rest'' = rest := by simpa using hjoin
        obtain ⟨us', rfl, hreads'⟩ := reads_of_read hmore
        exact ⟨us ++ .word o.symbol :: us', by simp, .join o hreads hreads'⟩
      · obtain ⟨rfl, rfl⟩ : g = f ∧ .word w :: rest' = rest := by simpa using h
        exact ⟨us, rfl, .single o hreads⟩
    · obtain ⟨us, rfl, hreads⟩ := reads_of_read h
      exact ⟨us, rfl, .single o hreads⟩

/-- **The reader finds exactly the readings of the grammar.** -/
theorem read?_eq_some_iff {text : String} : read? text = some f ↔ IsReading text f := by
  constructor
  · intro h
    simp only [read?] at h
    split at h
    · rename_i g hread
      cases h
      obtain ⟨us, hus, hreads⟩ := reads_of_read hread
      rwa [IsReading, hus, List.append_nil]
    · cases h
  · intro h
    have hread : read (3 * (tokens text.toList).length) (.chain .or) (tokens text.toList ++ []) = some (f, []) :=
      h.read_append trivial (Nat.le_add_right _ _)
    rw [List.append_nil] at hread
    simp [read?, hread]

end ConditionTree.Infix
