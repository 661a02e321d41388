import ConditionTree.Proofs.PathText
import Mathlib.Data.List.DropRight

/-!
# Path texts that are joined

Blanks around a text make no difference to its pieces (`pieces_pad`), since a separator is no blank. So what a text is
read as does not change where it is put behind another one and a separator (`segments_join`): the blanks between them
stand around a piece, and the sign of the root is looked for in front of the first text alone. The second text may not
begin with that sign, which counts as a part of a name there.
-/

namespace ConditionTree

namespace Text

variable {cs front back : List Char}

theorem exists_trim (cs : List Char) :
    ∃ back, cs.dropWhile isBlank = trim cs ++ back ∧ ∀ c ∈ back, isBlank c :=
  ⟨(cs.dropWhile isBlank).rtakeWhile isBlank, List.rdropWhile_append_rtakeWhile.symm, fun _ hc => List.mem_rtakeWhile_imp hc⟩

/-- Trimming takes away blanks at both ends and nothing else. -/
theorem exists_pad (cs : List Char) :
    ∃ front back, cs = front ++ (trim cs ++ back) ∧ (∀ c ∈ front, isBlank c) ∧ ∀ c ∈ back, isBlank c := by
  obtain ⟨back, hback, hblank⟩ := exists_trim cs
  refine ⟨cs.takeWhile isBlank, back, ?_, fun c hc => List.mem_takeWhile_imp hc, hblank⟩
  rw [← hback, List.takeWhile_append_dropWhile]

theorem trim_pad (hfront : ∀ c ∈ front, isBlank c) (hback : ∀ c ∈ back, isBlank c) (cs : List Char) :
    trim (front ++ (cs ++ back)) = trim cs := by
  have hreverse : ∀ c ∈ back.reverse, isBlank c := fun c hc => hback c (List.mem_reverse.mp hc)
  unfold trim
  rw [List.dropWhile_append_of_pos hfront, List.dropWhile_append]
  split_ifs with hempty
  · rw [List.dropWhile_eq_nil_iff.mpr hback, List.isEmpty_iff.mp hempty]
  · rw [List.reverse_append, List.dropWhile_append_of_pos hreverse]

theorem trim_eq_nil_iff : trim cs = [] ↔ ∀ c ∈ cs, isBlank c := by
  constructor
  · intro h
    obtain ⟨front, back, hcs, hfront, hback⟩ := exists_pad cs
    rw [h, List.nil_append] at hcs
    intro c hc
    rw [hcs] at hc
    exact (List.mem_append.mp hc).elim (hfront c) (hback c)
  · intro h
    have hpad := trim_pad h (List.forall_mem_nil _) []
    rwa [List.append_nil, List.append_nil] at hpad

end Text

namespace Path

open Text

variable {c : Char} {cs ds front back : List Char} {p q : Path} {s t : String}

/-! ### Pieces of padded texts -/

theorem isSeparator_of_isBlank (hc : isBlank c) : isSeparator c = false := by
  rw [Bool.eq_false_iff]
  intro hsep
  simp only [isSeparator, Bool.or_eq_true, beq_iff_eq] at hsep
  rcases hsep with rfl | rfl <;> cases hc

/-- Without a separator there is one piece, if it is not blank. -/
theorem pieces_of_forall (h : ∀ c ∈ cs, isSeparator c = false) :
    pieces cs = if trim cs = [] then [] else [String.ofList (trim cs)] := by
  rw [pieces, List.splitOnP_eq_singleton h, List.map_singleton]
  split_ifs with htrim
  · rw [htrim]
    rfl
  · simp [htrim]

theorem pieces_pad_of_forall (hcs : ∀ c ∈ cs, isSeparator c = false) (hfront : ∀ c ∈ front, isBlank c)
    (hback : ∀ c ∈ back, isBlank c) : pieces (front ++ (cs ++ back)) = pieces cs := by
  have hall : ∀ c ∈ front ++ (cs ++ back), isSeparator c = false := by
    intro c hc
    rw [List.mem_append, List.mem_append] at hc
    rcases hc with hc | hc | hc
    · exact isSeparator_of_isBlank (hfront c hc)
    · exact hcs c hc
    · exact isSeparator_of_isBlank (hback c hc)
  rw [pieces_of_forall hall, pieces_of_forall hcs, trim_pad hfront hback]

/-- **Blanks around a text make no difference to its pieces.** The text is cut at one of its separators, and each part
has blanks on one side only. -/
theorem pieces_pad : ∀ {front back : List Char} (cs : List Char), (∀ c ∈ front, isBlank c) → (∀ c ∈ back, isBlank c) →
    pieces (front ++ (cs ++ back)) = pieces cs := by
  intro front back cs hfront hback
  by_cases hcut : ∃ c ∈ cs, isSeparator c
  · obtain ⟨c, hmem, hc⟩ := hcut
    obtain ⟨us, ws, rfl⟩ := List.append_of_mem hmem
    have hus : pieces (front ++ (us ++ [])) = pieces us := pieces_pad us hfront (List.forall_mem_nil _)
    have hws : pieces ([] ++ (ws ++ back)) = pieces ws := pieces_pad ws (List.forall_mem_nil _) hback
    rw [List.append_nil] at hus
    rw [List.nil_append] at hws
    calc pieces (front ++ (us ++ c :: ws ++ back))
        = pieces (front ++ us ++ c :: (ws ++ back)) := by simp only [List.append_assoc, List.cons_append]
      _ = pieces (front ++ us) ++ pieces (ws ++ back) := pieces_append_separator hc _ _
      _ = pieces us ++ pieces ws := by rw [hus, hws]
      _ = pieces (us ++ c :: ws) := (pieces_append_separator hc _ _).symm
  · have hcs : ∀ c ∈ cs, isSeparator c = false := fun c hc => Bool.eq_false_iff.mpr fun hsep => hcut ⟨c, hc, hsep⟩
    exact pieces_pad_of_forall hcs hfront hback
termination_by _ _ cs => cs.length
decreasing_by
  all_goals
    subst_vars
    simp only [List.length_append, List.length_cons]
    omega

theorem pieces_trim (cs : List Char) : pieces (trim cs) = pieces cs := by
  obtain ⟨front, back, hcs, hfront, hback⟩ := exists_pad cs
  conv_rhs => rw [hcs]
  exact (pieces_pad _ hfront hback).symm

/-! ### The sign of the root -/

/-- What is left of a text without the sign of the root in front. -/
def afterSign : List Char → List Char
  | '$' :: rest => rest
  | cs => cs

theorem segments_eq (s : String) : segments s = pieces (afterSign (trim s.toList)) := by
  unfold segments afterSign
  rfl

theorem afterSign_of_ne (h : cs.head? ≠ some '$') : afterSign cs = cs := by
  unfold afterSign
  split
  · exact absurd rfl h
  · rfl

theorem afterSign_append (h : cs = [] → ds.head? ≠ some '$') : afterSign (cs ++ ds) = afterSign cs ++ ds := by
  cases cs with
  | nil => exact afterSign_of_ne (h rfl)
  | cons c cs =>
    by_cases hc : c = '$'
    · subst hc
      rfl
    · have hne : ∀ rest, (c :: rest).head? ≠ some '$' := fun rest heq => hc (Option.some.inj heq)
      rw [afterSign_of_ne (hne cs), List.cons_append, afterSign_of_ne (hne _)]

/-- The sign is looked for behind the blanks in front; those at the end do not matter. -/
theorem pieces_afterSign_trim (cs : List Char) :
    pieces (afterSign (trim cs)) = pieces (afterSign (cs.dropWhile isBlank)) := by
  obtain ⟨back, hback, hblank⟩ := exists_trim cs
  have hsign : back.head? ≠ some '$' := by
    intro h
    have hdollar := hblank _ (List.mem_of_head? h)
    cases hdollar
  rw [hback, afterSign_append fun _ => hsign]
  exact (pieces_pad _ (List.forall_mem_nil _) hblank).symm

/-- **The pieces of a joined text are those of its parts.** -/
theorem pieces_join (hc : isSeparator c) (cs ds : List Char) :
    pieces (afterSign (trim (cs ++ c :: ds))) = pieces (afterSign (trim cs)) ++ pieces ds := by
  have hsign : (c :: ds).head? ≠ some '$' := by
    intro h
    obtain rfl : c = '$' := Option.some.inj h
    cases hc
  have hblank : (c :: ds).dropWhile isBlank = c :: ds := by
    refine List.dropWhile_cons_of_neg fun hblank => ?_
    rw [isSeparator_of_isBlank hblank] at hc
    cases hc
  have hdrop : (cs ++ c :: ds).dropWhile isBlank = cs.dropWhile isBlank ++ c :: ds := by
    rw [List.dropWhile_append]
    split_ifs with hempty
    · rw [hblank, List.isEmpty_iff.mp hempty, List.nil_append]
    · rfl
  rw [pieces_afterSign_trim, pieces_afterSign_trim, hdrop, afterSign_append fun _ => hsign, pieces_append_separator hc]

/-- A text that does not begin with the sign of the root goes on where another one ends. -/
theorem segments_join {separator : String} (hseparator : separator.toList = [c]) (hc : isSeparator c)
    (ht : (trim t.toList).head? ≠ some '$') : segments (s ++ separator ++ t) = segments s ++ segments t := by
  have hjoin := pieces_join hc s.toList t.toList
  rw [segments_eq, segments_eq, segments_eq, afterSign_of_ne ht, pieces_trim, ← hjoin, String.toList_append,
    String.toList_append, hseparator, List.append_assoc, List.singleton_append]

theorem ofText_join {separator : String} (hseparator : separator.toList = [c]) (hc : isSeparator c)
    (hs : ofText s = .ok p) (ht : ofText t = .ok q) (hsign : (trim t.toList).head? ≠ some '$') :
    ofText (s ++ separator ++ t) = .ok (p ++ q) := by
  rw [ofText] at hs ht
  rw [ofText, segments_join hseparator hc hsign, List.mapM_append, hs, ht]
  rfl

/-! ### Texts that are refused -/

/-- The names of branches, each by its first letter as well. -/
def branchNames : List String := ["left", "l", "right", "r", "child", "c"]

/-- Trimmed and in small letters, the segment is one of the names. -/
def NamesBranch (segment : List Char) : Prop :=
  String.ofList ((trim segment).map Char.toLower) ∈ branchNames

/-- The segment is not blank and names no branch. -/
def IsFaulty (segment : List Char) : Prop :=
  (¬ ∀ c ∈ segment, isBlank c) ∧ ¬ NamesBranch segment

instance (segment : List Char) : Decidable (IsFaulty segment) :=
  inferInstanceAs (Decidable ((¬ ∀ c ∈ segment, isBlank c) ∧
    String.ofList ((trim segment).map Char.toLower) ∉ branchNames))

/-- What stands between the separators of a text, after the sign of the root. -/
def rawSegments (s : String) : List (List Char) :=
  (afterSign (trim s.toList)).splitOnP isSeparator

/-- The branch that a segment names. -/
def branchIn? (segment : List Char) : Option Branch :=
  Branch.ofText? (String.ofList (trim segment))

theorem branchIn?_eq_none_iff (segment : List Char) : branchIn? segment = none ↔ ¬ NamesBranch segment := by
  unfold branchIn? NamesBranch Branch.ofText? branchNames
  rw [String.toList_ofList]
  split <;> simp_all

theorem branchOf_of_faulty {w : List Char} (h : IsFaulty w) :
    branchOf (String.ofList (trim w)) = .error (.unknownBranch (String.ofList (trim w))) := by
  have hnone := (branchIn?_eq_none_iff w).mpr h.2
  rw [branchIn?] at hnone
  rw [branchOf, hnone]

theorem branchOf_of_branchIn? {w : List Char} {b : Branch} (hb : branchIn? w = some b) :
    branchOf (String.ofList (trim w)) = .ok b := by
  rw [branchIn?] at hb
  rw [branchOf, hb]

theorem not_isFaulty_of_branchIn? {w : List Char} {b : Branch} (hb : branchIn? w = some b) : ¬ IsFaulty w := by
  intro h
  rw [(branchIn?_eq_none_iff w).mpr h.2] at hb
  cases hb

theorem mapM_branchOf_pieces (ws : List (List Char)) :
    (((ws.map trim).filterMap fun piece => if piece.isEmpty then none else some (String.ofList piece)).mapM branchOf) =
      match ws.find? (IsFaulty ·) with
      | some w => .error (.unknownBranch (String.ofList (trim w)))
      | none => .ok (ws.filterMap branchIn?) := by
  induction ws with
  | nil => rfl
  | cons w ws ih =>
    by_cases hblank : ∀ c ∈ w, isBlank c
    · have hfine : ¬ IsFaulty w := fun h => h.1 hblank
      have htrim : trim w = [] := trim_eq_nil_iff.mpr hblank
      have hnone : branchIn? w = none := by
        rw [branchIn?, htrim]
        rfl
      rw [List.map_cons, List.filterMap_cons_none (by simp [htrim]), ih, List.find?_cons_of_neg (by simp [hfine]),
        List.filterMap_cons_none hnone]
    · have htrim : (trim w).isEmpty = false := by
        rw [Bool.eq_false_iff]
        intro hempty
        exact hblank (trim_eq_nil_iff.mp (List.isEmpty_iff.mp hempty))
      rw [List.map_cons, List.filterMap_cons_some (by rw [htrim]; rfl), List.mapM_cons, ih]
      cases hb : branchIn? w with
      | none =>
        have hfaulty : IsFaulty w := ⟨hblank, (branchIn?_eq_none_iff w).mp hb⟩
        rw [List.find?_cons_of_pos (by simp [hfaulty]), branchOf_of_faulty hfaulty]
        rfl
      | some b =>
        rw [List.find?_cons_of_neg (by simp [not_isFaulty_of_branchIn? hb]), branchOf_of_branchIn? hb,
          List.filterMap_cons_some hb]
        cases ws.find? (IsFaulty ·) <;> rfl

/-- **A path text is read segment by segment**, up to the first one that is faulty. -/
theorem ofText_eq (s : String) : ofText s =
    match (rawSegments s).find? (IsFaulty ·) with
    | some w => .error (.unknownBranch (String.ofList (trim w)))
    | none => .ok ((rawSegments s).filterMap branchIn?) := by
  rw [ofText, segments_eq]
  exact mapM_branchOf_pieces _

theorem exists_error_iff (s : String) : (∃ e, ofText s = .error e) ↔ ∃ w ∈ rawSegments s, IsFaulty w := by
  rw [ofText_eq]
  cases hfind : (rawSegments s).find? (IsFaulty ·) with
  | none =>
    rw [List.find?_eq_none] at hfind
    simpa using hfind
  | some w =>
    have hfaulty : IsFaulty w := by simpa using List.find?_some hfind
    exact ⟨fun _ => ⟨w, List.mem_of_find?_eq_some hfind, hfaulty⟩, fun _ => ⟨_, rfl⟩⟩

/-- The error names the first faulty segment, trimmed. -/
theorem ofText_eq_error_iff {e : PathError} : ofText s = .error e ↔
    ∃ before w after, rawSegments s = before ++ w :: after ∧ (∀ u ∈ before, ¬ IsFaulty u) ∧ IsFaulty w ∧
      e = .unknownBranch (String.ofList (trim w)) := by
  have hfirst : ∀ w, (rawSegments s).find? (IsFaulty ·) = some w ↔
      ∃ before after, rawSegments s = before ++ w :: after ∧ (∀ u ∈ before, ¬ IsFaulty u) ∧ IsFaulty w := fun w => by
    rw [List.find?_eq_some_iff_append]
    constructor
    · rintro ⟨hw, before, after, hsegments, hbefore⟩
      exact ⟨before, after, hsegments, fun u hu => by simpa using hbefore u hu, by simpa using hw⟩
    · rintro ⟨before, after, hsegments, hbefore, hw⟩
      exact ⟨by simpa using hw, before, after, hsegments, fun u hu => by simpa using hbefore u hu⟩
  constructor
  · intro h
    rw [ofText_eq] at h
    cases hfind : (rawSegments s).find? (IsFaulty ·) with
    | none =>
      rw [hfind] at h
      cases h
    | some w =>
      rw [hfind] at h
      cases h
      obtain ⟨before, after, hsegments, hbefore, hw⟩ := (hfirst w).mp hfind
      exact ⟨before, w, after, hsegments, hbefore, hw, rfl⟩
  · rintro ⟨before, w, after, hsegments, hbefore, hw, rfl⟩
    rw [ofText_eq, (hfirst w).mpr ⟨before, after, hsegments, hbefore, hw⟩]

end Path

/-- **Path texts are a faithful notation.** A path is read back from its text. What is accepted can be put behind an
accepted text and a separator, unless it begins with the sign of the root, and leads on from there; so it can be put
behind the text of any path. A text is refused if and only if a segment of it that is not blank names no branch, and the
error names the first such segment. -/
theorem path_texts_can_be_extended :
    (∀ p : Path, Path.ofText p.text = .ok p) ∧
    (∀ (s t : String) (p q : Path), Path.ofText s = .ok p → Path.ofText t = .ok q →
      (Text.trim t.toList).head? ≠ some '$' →
      Path.ofText (s ++ "." ++ t) = .ok (p ++ q) ∧ Path.ofText (s ++ "/" ++ t) = .ok (p ++ q)) ∧
    (∀ (t : String) (p q : Path), Path.ofText t = .ok q → (Text.trim t.toList).head? ≠ some '$' →
      Path.ofText (p.text ++ "." ++ t) = .ok (p ++ q)) ∧
    (∀ s : String, (∃ e, Path.ofText s = .error e) ↔ ∃ w ∈ Path.rawSegments s, Path.IsFaulty w) ∧
    ∀ (s : String) (e : PathError), Path.ofText s = .error e ↔
      ∃ before w after, Path.rawSegments s = before ++ w :: after ∧ (∀ u ∈ before, ¬ Path.IsFaulty u) ∧
        Path.IsFaulty w ∧ e = .unknownBranch (String.ofList (Text.trim w)) := by
  refine ⟨Path.ofText_text, fun s t p q hs ht hsign => ?_, fun t p q ht hsign => ?_, Path.exists_error_iff,
    fun s e => Path.ofText_eq_error_iff⟩
  · exact ⟨Path.ofText_join rfl rfl hs ht hsign, Path.ofText_join rfl rfl hs ht hsign⟩
  · exact Path.ofText_join rfl rfl (Path.ofText_text p) ht hsign

/-- Blanks of any kind around a lone sign, an empty segment and letters of both cases do not keep texts from being
joined. -/
theorem padded_texts_joined :
    Path.ofText "\u3000$ / R.\u00a0" = .ok [.right] ∧ Path.ofText " /cHiLd. L\t" = .ok [.child, .left] ∧
    (Text.trim " /cHiLd. L\t".toList).head? ≠ some '$' ∧
    Path.ofText ("\u3000$ / R.\u00a0" ++ "/" ++ " /cHiLd. L\t") = .ok [.right, .child, .left] ∧
    Path.ofText (Path.text [.left] ++ "." ++ " /cHiLd. L\t") = .ok [.left, .child, .left] := by
  have hs : Path.ofText "\u3000$ / R.\u00a0" = .ok [.right] := by
    rfl
  have ht : Path.ofText " /cHiLd. L\t" = .ok [.child, .left] := by
    rfl
  have hsign : (Text.trim " /cHiLd. L\t".toList).head? ≠ some '$' := by decide
  obtain ⟨-, hjoin, hextend, -⟩ := path_texts_can_be_extended
  exact ⟨hs, ht, hsign, (hjoin _ _ _ _ hs ht hsign).2, hextend _ [.left] _ ht hsign⟩

end ConditionTree
