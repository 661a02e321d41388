import ConditionTree.Config
import ConditionTree.Proofs.Printing
import Mathlib.Data.List.Nodup
import Mathlib.Logic.Relation

/-!
# Settings in texts

Settings are read field by field, and a field depends on nothing but what is given under its key (`field_eq`). So the
order of members does not matter (`field_perm`), members of other keys are passed over (`field_insert`), and a key that
is left out gives its default (`field_without`). Texts of settings are read back from this (`settings_read_back`): in any
order, with any keys left out, and with any others put in.
-/

namespace ConditionTree

namespace Config

/-! ### What is given under a key -/

section Fields

variable {α : Type} {key k : String} {default : α} {read : Json → Option α} {v v' : Json} {vs vs' : List Json}
  {members members' xs ys : List (String × Json)} {removed : List String}

/-- The values given under a key. -/
def given (key : String) (members : List (String × Json)) : List Json :=
  (members.filter (·.1 == key)).map Prod.snd

/-- What values under one key say: the default without any, and nothing if there are several. -/
def settle (default : α) (read : Json → Option α) : List Json → Option α
  | [] => some default
  | [v] => read v
  | _ => none

theorem field_eq (key : String) (default : α) (read : Json → Option α) (members : List (String × Json)) :
    field key default read members = settle default read (given key members) := by
  unfold field given
  cases members.filter (·.1 == key) with
  | nil => rfl
  | cons m rest => cases rest <;> rfl

theorem given_append (key : String) (xs ys : List (String × Json)) : given key (xs ++ ys) = given key xs ++ given key ys := by
  rw [given, List.filter_append, List.map_append]
  rfl

theorem given_cons_self (key : String) (v : Json) (ys : List (String × Json)) :
    given key ((key, v) :: ys) = v :: given key ys := by
  rw [given, List.filter_cons_of_pos (by simp)]
  rfl

theorem given_cons_ne (h : k ≠ key) (v : Json) (ys : List (String × Json)) : given key ((k, v) :: ys) = given key ys := by
  rw [given, List.filter_cons_of_neg (by simpa using h)]
  rfl

theorem length_given (key : String) (members : List (String × Json)) :
    (given key members).length = (members.map Prod.fst).count key := by
  rw [given, List.length_map, List.count, List.countP_map, List.countP_eq_length_filter]
  rfl

theorem mem_given_iff : v ∈ given key members ↔ (key, v) ∈ members := by
  simp [given]

theorem given_eq_nil (h : key ∉ members.map Prod.fst) : given key members = [] := by
  rw [← List.length_eq_zero_iff, length_given]
  exact List.count_eq_zero.mpr h

/-- Where no key is repeated, one value is given under each. -/
theorem given_eq_singleton (hkeys : (members.map Prod.fst).Nodup) (hmem : (key, v) ∈ members) :
    given key members = [v] := by
  have hlength : (given key members).length = 1 := by
    rw [length_given]
    exact List.count_eq_one_of_mem hkeys (List.mem_map_of_mem hmem)
  obtain ⟨w, hw⟩ := List.length_eq_one_iff.mp hlength
  have hv : v ∈ given key members := mem_given_iff.mpr hmem
  rw [hw] at hv ⊢
  rw [List.mem_singleton.mp hv]

theorem settle_of_two_le (h : 2 ≤ vs.length) : settle default read vs = none := by
  match vs, h with
  | _ :: _ :: _, _ => rfl

theorem settle_perm (h : vs.Perm vs') : settle default read vs = settle default read vs' := by
  by_cases htwo : 2 ≤ vs.length
  · rw [settle_of_two_le htwo, settle_of_two_le (h.length_eq ▸ htwo)]
  · match vs, htwo with
    | [], _ => rw [List.nil_perm.mp h]
    | [v], _ => rw [List.singleton_perm.mp h]
    | _ :: _ :: _, htwo => simp at htwo

/-- What cannot be read makes all of it unreadable. -/
theorem settle_of_unreadable (hmem : v ∈ vs) (h : read v = none) : settle default read vs = none := by
  match vs, hmem with
  | [w], hmem => rwa [settle, ← List.mem_singleton.mp hmem]
  | _ :: _ :: _, _ => rfl

/-! ### Fields -/

/-- The order of members does not matter. -/
theorem field_perm (h : members.Perm members') :
    field key default read members = field key default read members' := by
  rw [field_eq, field_eq]
  exact settle_perm ((h.filter _).map _)

/-- A member of another key is passed over. -/
theorem field_insert (h : k ≠ key) :
    field key default read (xs ++ (k, v) :: ys) = field key default read (xs ++ ys) := by
  rw [field_eq, field_eq, given_append, given_append, given_cons_ne h]

/-- Of a member only what is read from it matters. -/
theorem field_replace (h : k = key → read v = read v') :
    field key default read (xs ++ (k, v) :: ys) = field key default read (xs ++ (k, v') :: ys) := by
  by_cases hk : k = key
  · subst hk
    simp only [field_eq, given_append, given_cons_self]
    cases given k xs with
    | nil =>
      cases given k ys with
      | nil => exact h rfl
      | cons w rest => rfl
    | cons w rest => cases rest <;> rfl
  · rw [field_insert hk, field_insert hk]

/-- A key may not be given twice. -/
theorem field_of_twice (h : 2 ≤ (members.map Prod.fst).count key) : field key default read members = none := by
  rw [field_eq]
  exact settle_of_two_le (by rwa [length_given])

theorem field_of_unreadable (hmem : (key, v) ∈ members) (h : read v = none) :
    field key default read members = none := by
  rw [field_eq]
  exact settle_of_unreadable (mem_given_iff.mpr hmem) h

theorem field_of_notMem (h : key ∉ members.map Prod.fst) : field key default read members = some default := by
  rw [field_eq, given_eq_nil h]
  rfl

/-- The members whose keys are not left out. -/
def without (removed : List String) (members : List (String × Json)) : List (String × Json) :=
  members.filter fun m => m.1 ∉ removed

theorem keys_without (removed : List String) (members : List (String × Json)) :
    (without removed members).map Prod.fst = (members.map Prod.fst).filter (· ∉ removed) := by
  rw [List.filter_map]
  rfl

/-- **A key that is left out gives its default**, and one that is kept what it gave. -/
theorem field_without {x : α} (hkeys : (members.map Prod.fst).Nodup) (hmem : (key, v) ∈ members)
    (hread : read v = some x) :
    field key default read (without removed members) = some (if key ∈ removed then default else x) := by
  split_ifs with hremoved
  · refine field_of_notMem fun hin => ?_
    rw [keys_without] at hin
    simp [hremoved] at hin
  · have hkept : (key, v) ∈ without removed members := List.mem_filter.mpr ⟨hmem, by simpa using hremoved⟩
    have hkeys' : ((without removed members).map Prod.fst).Nodup := by
      rw [keys_without]
      exact hkeys.filter _
    rw [field_eq, given_eq_singleton hkeys' hkept]
    exact hread

end Fields

/-! ### Keys of no meaning and keys given twice -/

/-- The keys that have a meaning in settings. -/
def keys : List String := ["default_operator", "output", "placeholder"]

/-- The objects inside of settings, with the keys that have a meaning in them. -/
def sections : List (String × List String) :=
  [("output", ["pretty"]), ("placeholder", ["operator", "ref", "value"])]

/-- The second value is the first one with a member more, of a key that has no meaning where it stands. -/
inductive AddsUnknown : Json → Json → Prop
  | top {key : String} {v : Json} {xs ys : List (String × Json)} (h : key ∉ keys) :
    AddsUnknown (.object (xs ++ ys)) (.object (xs ++ (key, v) :: ys))
  | inside {name key : String} {known : List String} {v : Json} {xs ys us ws : List (String × Json)}
    (hname : (name, known) ∈ sections) (h : key ∉ known) :
    AddsUnknown (.object (xs ++ (name, .object (us ++ ws)) :: ys))
      (.object (xs ++ (name, .object (us ++ (key, v) :: ws)) :: ys))

/-- A key that has a meaning is given twice in one object. -/
inductive GivesTwice : Json → Prop
  | top {key : String} {members : List (String × Json)} (hkey : key ∈ keys)
    (h : 2 ≤ (members.map Prod.fst).count key) : GivesTwice (.object members)
  | inside {name key : String} {known : List String} {members inner : List (String × Json)}
    (hname : (name, known) ∈ sections) (hmem : (name, .object inner) ∈ members) (hkey : key ∈ known)
    (h : 2 ≤ (inner.map Prod.fst).count key) : GivesTwice (.object members)

section Reading

variable {key k : String} {v v' : Json} {xs ys members : List (String × Json)}

theorem readPlaceholder_insert (h : key ∉ ["operator", "ref", "value"]) :
    readPlaceholder (.object (xs ++ (key, v) :: ys)) = readPlaceholder (.object (xs ++ ys)) := by
  simp only [List.mem_cons, List.not_mem_nil, or_false, not_or] at h
  obtain ⟨hoperator, href, hvalue⟩ := h
  simp only [readPlaceholder, field_insert hoperator, field_insert href, field_insert hvalue]

theorem readOutput_insert (h : key ∉ ["pretty"]) :
    readOutput (.object (xs ++ (key, v) :: ys)) = readOutput (.object (xs ++ ys)) := by
  rw [List.mem_singleton] at h
  simp only [readOutput, field_insert h]

theorem ofJson?_insert (h : key ∉ keys) : ofJson? (.object (xs ++ (key, v) :: ys)) = ofJson? (.object (xs ++ ys)) := by
  simp only [keys, List.mem_cons, List.not_mem_nil, or_false, not_or] at h
  obtain ⟨hoperator, houtput, hplaceholder⟩ := h
  simp only [ofJson?, field_insert hoperator, field_insert houtput, field_insert hplaceholder]

/-- What settings say depends on what is read from their sections, not on how these are written. -/
theorem ofJson?_replace (hoperator : k ≠ "default_operator")
    (hplaceholder : k = "placeholder" → readPlaceholder v = readPlaceholder v')
    (houtput : k = "output" → readOutput v = readOutput v') :
    ofJson? (.object (xs ++ (k, v) :: ys)) = ofJson? (.object (xs ++ (k, v') :: ys)) := by
  have hfirst : field "default_operator" Connective.and (choice Connective.ofName?) (xs ++ (k, v) :: ys) =
      field "default_operator" .and (choice Connective.ofName?) (xs ++ (k, v') :: ys) :=
    field_replace fun heq => absurd heq hoperator
  simp only [ofJson?, hfirst, field_replace hplaceholder, field_replace houtput]

/-- A member of no meaning changes nothing. -/
theorem ofJson?_of_addsUnknown (h : AddsUnknown v v') : ofJson? v' = ofJson? v := by
  cases h with
  | top h => exact ofJson?_insert h
  | inside hname h =>
    simp only [sections, List.mem_cons, Prod.mk.injEq, List.not_mem_nil, or_false] at hname
    rcases hname with ⟨rfl, rfl⟩ | ⟨rfl, rfl⟩
    · exact ofJson?_replace (by decide) (fun heq => absurd heq (by decide)) fun _ => readOutput_insert h
    · exact ofJson?_replace (by decide) (fun _ => readPlaceholder_insert h) fun heq => absurd heq (by decide)

/-- Nor do any number of them. -/
theorem ofJson?_of_reflTransGen (h : Relation.ReflTransGen AddsUnknown v v') : ofJson? v' = ofJson? v := by
  induction h with
  | refl => rfl
  | tail _ hstep ih => exact (ofJson?_of_addsUnknown hstep).trans ih

/-- Three fields are read together, or none of them. -/
theorem three_eq_none {α β γ δ : Type} {x : Option α} {y : Option β} {z : Option γ} (f : α → β → γ → δ)
    (h : x = none ∨ y = none ∨ z = none) :
    (do let a ← x; let b ← y; let c ← z; return f a b c) = none := by
  rcases h with rfl | rfl | rfl
  · rfl
  · cases x <;> rfl
  · cases x with
    | none => rfl
    | some a => cases y <;> rfl

theorem readPlaceholder_of_twice (hkey : key ∈ ["operator", "ref", "value"])
    (h : 2 ≤ (members.map Prod.fst).count key) : readPlaceholder (.object members) = none := by
  simp only [List.mem_cons, List.not_mem_nil, or_false] at hkey
  refine three_eq_none Placeholder.mk ?_
  rcases hkey with rfl | rfl | rfl
  · exact .inl (field_of_twice h)
  · exact .inr (.inl (field_of_twice h))
  · exact .inr (.inr (field_of_twice h))

/-- **A key with a meaning may be given once.** -/
theorem ofJson?_of_givesTwice (h : GivesTwice v) : ofJson? v = none := by
  cases h with
  | top hkey h =>
    simp only [keys, List.mem_cons, List.not_mem_nil, or_false] at hkey
    refine three_eq_none Config.mk ?_
    rcases hkey with rfl | rfl | rfl
    · exact .inl (field_of_twice h)
    · exact .inr (.inr (field_of_twice h))
    · exact .inr (.inl (field_of_twice h))
  | inside hname hmem hkey h =>
    simp only [sections, List.mem_cons, Prod.mk.injEq, List.not_mem_nil, or_false] at hname
    refine three_eq_none Config.mk ?_
    rcases hname with ⟨rfl, rfl⟩ | ⟨rfl, rfl⟩
    · rw [List.mem_singleton] at hkey
      subst hkey
      exact .inr (.inr (field_of_unreadable hmem (field_of_twice h)))
    · exact .inr (.inl (field_of_unreadable hmem (readPlaceholder_of_twice hkey h)))

end Reading

/-! ### Settings that are written -/

/-- Keys that are left out of written settings: at the top, in the placeholder and in the output. -/
structure Omission where
  top : List String := []
  placeholder : List String := []
  output : List String := []

/-- The settings with the default in each field that is left out, or whose section is. -/
def Omission.reset (o : Omission) (c : Config) : Config :=
  let defaults : Config := {}
  { operator := if "default_operator" ∈ o.top then defaults.operator else c.operator
    placeholder :=
      if "placeholder" ∈ o.top then defaults.placeholder
      else
        { operator := if "operator" ∈ o.placeholder then defaults.placeholder.operator else c.placeholder.operator
          series := if "ref" ∈ o.placeholder then defaults.placeholder.series else c.placeholder.series
          value := if "value" ∈ o.placeholder then defaults.placeholder.value else c.placeholder.value }
    pretty :=
      if "output" ∈ o.top then defaults.pretty
      else if "pretty" ∈ o.output then defaults.pretty else c.pretty }

theorem reset_nothing (c : Config) : ({} : Omission).reset c = c := by
  simp [Omission.reset]

/-- What a value holds under its keys, if it is an object. -/
def membersOf : Json → List (String × Json)
  | .object members => members
  | _ => []

/-- The members of written settings, around those of their sections. -/
def around (c : Config) (placeholder output : List (String × Json)) : List (String × Json) :=
  [("default_operator", .string c.operator.symbol), ("output", .object output), ("placeholder", .object placeholder)]

/-- The value holds what the settings write, without the keys that are left out, and in any order. -/
def Writes (c : Config) (o : Omission) (v : Json) : Prop :=
  ∃ placeholder output members, v = .object members ∧
    placeholder.Perm (without o.placeholder (membersOf (placeholderJson c.placeholder))) ∧
    output.Perm (without o.output [("pretty", .bool c.pretty)]) ∧
    members.Perm (without o.top (c.around placeholder output))

section Writing

variable {c : Config} {o : Omission} {v : Json} {members : List (String × Json)}

theorem without_nil (members : List (String × Json)) : without [] members = members := by
  simp [without]

theorem writes_toJson (c : Config) : c.Writes {} c.toJson := by
  refine ⟨membersOf (placeholderJson c.placeholder), [("pretty", .bool c.pretty)], _, rfl, ?_⟩
  rw [without_nil, without_nil, without_nil]
  exact ⟨.refl _, .refl _, .refl _⟩

/-- The series is written if there is one. -/
theorem lookup_series (p : Placeholder) : (membersOf (placeholderJson p)).lookup "ref" = p.series.map .string := by
  cases p with
  | mk operator series value => cases series <;> rfl

theorem nodup_placeholder (p : Placeholder) : ((membersOf (placeholderJson p)).map Prod.fst).Nodup := by
  cases p with
  | mk operator series value =>
    cases series with
    | none => exact show ["operator", "value"].Nodup by decide
    | some s => exact show ["operator", "ref", "value"].Nodup by decide

theorem field_series (p : Placeholder) (removed : List String) :
    field "ref" none readSeries (without removed (membersOf (placeholderJson p))) =
      some (if "ref" ∈ removed then none else p.series) := by
  cases hseries : p.series with
  | none =>
    rw [ite_self]
    refine field_of_notMem fun hin => ?_
    rw [keys_without, placeholderJson, hseries] at hin
    simp [membersOf] at hin
  | some s =>
    have hmem : ("ref", .string s) ∈ membersOf (placeholderJson p) := by
      rw [placeholderJson, hseries]
      simp [membersOf]
    exact field_without (nodup_placeholder p) hmem rfl

/-- A placeholder is read from what is left of it. -/
theorem readPlaceholder_of_perm {p : Placeholder} {removed : List String}
    (h : members.Perm (without removed (membersOf (placeholderJson p)))) :
    readPlaceholder (.object members) = some
      { operator := if "operator" ∈ removed then .greater else p.operator
        series := if "ref" ∈ removed then none else p.series
        value := if "value" ∈ removed then .zero else p.value } := by
  have hoperator : ("operator", .string p.operator.symbol) ∈ membersOf (placeholderJson p) := by
    simp [membersOf, placeholderJson]
  have hvalue : ("value", .double p.value) ∈ membersOf (placeholderJson p) := by
    simp [membersOf, placeholderJson]
  have hkeys := nodup_placeholder p
  rw [readPlaceholder, field_perm h, field_perm h, field_perm h,
    field_without hkeys hoperator (Comparator.ofSymbol?_symbol p.operator), field_series,
    field_without hkeys hvalue (show Json.asDouble? (.double p.value) = some p.value from rfl)]
  rfl

theorem readOutput_of_perm {pretty : Bool} {removed : List String}
    (h : members.Perm (without removed [("pretty", .bool pretty)])) :
    readOutput (.object members) = some (if "pretty" ∈ removed then true else pretty) := by
  have hkeys : ([("pretty", Json.bool pretty)].map Prod.fst).Nodup := List.nodup_singleton _
  rw [readOutput, field_perm h]
  exact field_without hkeys (List.mem_singleton_self _) rfl

/-- **Written settings are read back**, with the default for each key that is left out. -/
theorem ofJson?_of_writes (h : c.Writes o v) : ofJson? v = some (o.reset c) := by
  obtain ⟨placeholder, output, members, rfl, hplaceholder, houtput, hmembers⟩ := h
  have hkeys : ((c.around placeholder output).map Prod.fst).Nodup := show keys.Nodup by decide
  have hoperator : ("default_operator", .string c.operator.symbol) ∈ c.around placeholder output := .head _
  have hinner : ("placeholder", .object placeholder) ∈ c.around placeholder output := .tail _ (.tail _ (.head _))
  have hpretty : ("output", .object output) ∈ c.around placeholder output := .tail _ (.head _)
  rw [ofJson?, field_perm hmembers, field_perm hmembers, field_perm hmembers,
    field_without hkeys hoperator (Connective.ofName?_symbol c.operator),
    field_without hkeys hinner (readPlaceholder_of_perm hplaceholder),
    field_without hkeys hpretty (readOutput_of_perm houtput)]
  rfl

theorem holdExact_of_perm {members' : List (String × Json)} {removed : List String}
    (hmembers' : Json.HoldExact members') (h : members.Perm (without removed members')) : Json.HoldExact members :=
  Json.holdExact_iff.mpr fun kv hkv => Json.holdExact_iff.mp hmembers' kv (List.mem_of_mem_filter (h.subset hkv))

theorem holdExact_placeholder {p : Placeholder} (h : p.value.isFinite) :
    Json.HoldExact (membersOf (placeholderJson p)) := by
  cases p with
  | mk operator series value =>
    cases series with
    | none => exact ⟨trivial, h, trivial⟩
    | some s => exact ⟨trivial, trivial, h, trivial⟩

/-- Settings whose value is finite have a text that keeps them. -/
theorem isExact_of_writes (hfinite : c.placeholder.value.isFinite) (h : c.Writes o v) : v.IsExact := by
  obtain ⟨placeholder, output, members, rfl, hplaceholder, houtput, hmembers⟩ := h
  have hinner : Json.HoldExact placeholder := holdExact_of_perm (holdExact_placeholder hfinite) hplaceholder
  have hpretty : Json.HoldExact output :=
    holdExact_of_perm (show Json.HoldExact [("pretty", .bool c.pretty)] from ⟨trivial, trivial⟩) houtput
  have houter : Json.HoldExact (c.around placeholder output) := ⟨trivial, hpretty, hinner, trivial⟩
  exact holdExact_of_perm houter hmembers

theorem ofText?_jsonText (config : Config) (hfinite : c.placeholder.value.isFinite) (h : c.Writes o v) :
    ofText? (CommandLine.jsonText config v) = some (o.reset c) := by
  obtain ⟨hread, -⟩ := Json5.read?_jsonText config (isExact_of_writes hfinite h)
  rw [ofText?, hread]
  exact ofJson?_of_writes h

end Writing

end Config

open Config

/-- **Settings are read back from texts, field by field.** The compact and the pretty text of settings with a finite
value are read as the settings, bit for bit and whatever the series is called. Where keys are left out, at the top or in
a section, and in whatever order the others stand, exactly their fields are at the defaults. The series is written if it
is set. Two texts of which one has more members of keys without a meaning, there or in a section, are read alike, and a
text that gives a key with a meaning twice is not read at all. -/
theorem settings_read_back :
    (∀ c : Config, c.placeholder.value.isFinite →
      ofText? c.toJson.compact = some c ∧ ofText? c.toJson.pretty = some c) ∧
    (∀ (c : Config) (o : Omission) (v : Json), c.placeholder.value.isFinite → c.Writes o v →
      ofText? v.compact = some (o.reset c) ∧ ofText? v.pretty = some (o.reset c)) ∧
    (∀ p : Placeholder, (membersOf (placeholderJson p)).lookup "ref" = p.series.map .string) ∧
    (∀ (text text' : String) (v v' : Json), Json5.read? text = some v → Json5.read? text' = some v' →
      Relation.ReflTransGen AddsUnknown v v' → ofText? text' = ofText? text) ∧
    ∀ (text : String) (v : Json), Json5.read? text = some v → GivesTwice v → ofText? text = none := by
  refine ⟨fun c hc => ?_, fun c o v hc hv => ?_, lookup_series, fun text text' v v' hv hv' h => ?_, fun text v hv h => ?_⟩
  · have hcompact := ofText?_jsonText { pretty := false } hc (writes_toJson c)
    have hpretty := ofText?_jsonText { pretty := true } hc (writes_toJson c)
    rw [reset_nothing] at hcompact hpretty
    exact ⟨hcompact, hpretty⟩
  · exact ⟨ofText?_jsonText { pretty := false } hc hv, ofText?_jsonText { pretty := true } hc hv⟩
  · rw [ofText?, ofText?, hv, hv']
    exact ofJson?_of_reflTransGen h
  · rw [ofText?, hv]
    exact ofJson?_of_givesTwice h

/-- Settings away from all defaults, with a name that has to be escaped and a negative zero. -/
def oddSettings : Config :=
  ⟨.or, ⟨.atMost, some "\"\\\n\u2028 // é", .signedZero true⟩, false⟩

/-- A value that holds what is left of them without the series and the output, in another order, with some members in
front and some in the placeholder. -/
def partialSettings (front inside : List (String × Json)) : Json :=
  .object (front ++ ("placeholder", .object ([("value", .double (.signedZero true))] ++ inside ++
    [("operator", .string "<=")])) :: [("default_operator", .string "||")])

/-- A value with two members of no meaning, one of them under a key that has a meaning elsewhere. -/
def wordySettings : Json :=
  partialSettings [("pretty", .null)] [("series", .array [.int 1])]

/-- A value that gives the series twice, although not two different ones. -/
def repeatedSeries : Json :=
  .object [("placeholder", .object [("ref", .null), ("ref", .null)])]

/-- A negative zero is kept. The fields that are left out are at their defaults, whether there are members of no meaning
or not. -/
theorem partial_settings_read_back :
    oddSettings.placeholder.value.isFinite ∧ ofText? oddSettings.toJson.pretty = some oddSettings ∧
    oddSettings.Writes ⟨["output"], ["ref"], []⟩ (partialSettings [] []) ∧
    ofText? (partialSettings [] []).compact = some ⟨.or, ⟨.atMost, none, .signedZero true⟩, true⟩ ∧
    Json5.read? (partialSettings [] []).compact = some (partialSettings [] []) ∧
    Json5.read? wordySettings.pretty = some wordySettings ∧
    Relation.ReflTransGen AddsUnknown (partialSettings [] []) wordySettings ∧
    ofText? wordySettings.pretty = some ⟨.or, ⟨.atMost, none, .signedZero true⟩, true⟩ ∧
    Json5.read? repeatedSeries.compact = some repeatedSeries ∧ GivesTwice repeatedSeries ∧
    ofText? repeatedSeries.compact = none := by
  have hsection : ("placeholder", ["operator", "ref", "value"]) ∈ sections := by decide
  have hwrites : oddSettings.Writes ⟨["output"], ["ref"], []⟩ (partialSettings [] []) :=
    ⟨_, [("pretty", .bool false)], _, rfl, .swap .., .refl _, .swap ..⟩
  have hadds : Relation.ReflTransGen AddsUnknown (partialSettings [] []) wordySettings := by
    have hfront : AddsUnknown (partialSettings [] []) (partialSettings [("pretty", .null)] []) := .top (by decide)
    have hinside : AddsUnknown (partialSettings [("pretty", .null)] []) wordySettings := .inside hsection (by decide)
    exact .tail (.single hfront) hinside
  have htwice : GivesTwice repeatedSeries :=
    .inside hsection (List.mem_singleton_self _) (show "ref" ∈ ["operator", "ref", "value"] by decide) (by decide)
  have hwordy : wordySettings.IsExact :=
    ⟨trivial, ⟨rfl, ⟨⟨by decide, by decide⟩, trivial⟩, trivial, trivial⟩, trivial, trivial⟩
  have hrepeated : repeatedSeries.IsExact := ⟨⟨trivial, trivial, trivial⟩, trivial⟩
  obtain ⟨hreadPartial, -⟩ := Json5.read?_jsonText { pretty := false } (isExact_of_writes rfl hwrites)
  obtain ⟨hreadWordy, -⟩ := Json5.read?_jsonText { pretty := true } hwordy
  obtain ⟨hreadRepeated, -⟩ := Json5.read?_jsonText { pretty := false } hrepeated
  obtain ⟨hround, hpartial, -, hunknown, hrefused⟩ := settings_read_back
  obtain ⟨-, hpretty⟩ := hround oddSettings rfl
  obtain ⟨hcompact, -⟩ := hpartial oddSettings ⟨["output"], ["ref"], []⟩ (partialSettings [] []) rfl hwrites
  have hsame := hunknown _ _ _ _ hreadPartial hreadWordy hadds
  exact ⟨rfl, hpretty, hwrites, hcompact, hreadPartial, hreadWordy, hadds, hsame.trans hcompact, hreadRepeated, htwice,
    hrefused _ _ hreadRepeated htwice⟩

end ConditionTree
