import ConditionTree.CommandLine.Arguments
import ConditionTree.Proofs.Wire

/-!
# Naming an output

The reading of arguments takes no notice of an output that was named before, unless the arguments name one themselves.
So an output can be named in front of a command line that has none, and it asks for the same otherwise
(`ofArguments_attached`, `ofArguments_separate`).
-/

namespace ConditionTree.CommandLine

variable {path : String}

/-- With an output named already. -/
def Given.sendTo (g : Given) (path : String) : Given :=
  { g with output := some path }

/-! ### Steps and readings -/

/-- A step that takes no notice of an output, where it names none. -/
def HeedlessStep (step : Given → Except Stop Given) : Prop :=
  ∀ ⦃g g' : Given⦄, step g = .ok g' → g'.output = none →
    g.output = none ∧ ∀ path, step (g.sendTo path) = .ok (g'.sendTo path)

/-- A reading that takes no notice of an output, where it comes upon none. -/
def Heedless {α : Type} (read : Given → Except Stop (Given × α)) : Prop :=
  ∀ ⦃g g' : Given⦄ ⦃x : α⦄, read g = .ok (g', x) → g'.output = none →
    g.output = none ∧ ∀ path, read (g.sendTo path) = .ok (g'.sendTo path, x)

section Composition

variable {α β : Type}

theorem heedless_error (e : Stop) : Heedless fun _ => (.error e : Except Stop (Given × α)) := by
  intro g g' x h
  cases h

theorem heedless_return (x : α) : Heedless fun g => .ok (g, x) := by
  rintro g g' y ⟨⟩ hnone
  exact ⟨hnone, fun _ => rfl⟩

theorem HeedlessStep.bind {step : Given → Except Stop Given} {read : Given → Except Stop (Given × α)}
    (hstep : HeedlessStep step) (hread : Heedless read) : Heedless fun g => step g >>= read := by
  intro g g' x h hnone
  obtain ⟨g₁, hfirst, hrest⟩ := Condition.bind_eq_ok.mp h
  obtain ⟨hnone₁, hrest⟩ := hread hrest hnone
  obtain ⟨hnone, hfirst⟩ := hstep hfirst hnone₁
  exact ⟨hnone, fun path => Condition.bind_eq_ok.mpr ⟨_, hfirst path, hrest path⟩⟩

theorem Heedless.bind {first : Given → Except Stop (Given × β)} {read : Given × β → Except Stop (Given × α)}
    (hfirst : Heedless first) (hread : ∀ y, Heedless fun g => read (g, y)) : Heedless fun g => first g >>= read := by
  intro g g' x h hnone
  obtain ⟨⟨g₁, y⟩, hone, htwo⟩ := Condition.bind_eq_ok.mp h
  obtain ⟨hnone₁, htwo⟩ := hread y htwo hnone
  obtain ⟨hnone, hone⟩ := hfirst hone hnone₁
  exact ⟨hnone, fun path => Condition.bind_eq_ok.mpr ⟨_, hone path, htwo path⟩⟩

end Composition

/-! ### Each step -/

theorem once_ne_none {α : Type} {old new : Option α} : once old new ≠ .ok none := by
  intro h
  cases old <;> cases new <;> cases h

/-- An option apart from the output is set without a look at it. -/
theorem heedlessStep_set (v : String) (o : OptionName) : HeedlessStep fun g => g.set v o := by
  intro g g' h hnone
  cases o with
  | config | pointer | format | color | place | session | connective | comparator | value | series =>
    obtain ⟨x, hx, hg⟩ := Condition.bind_eq_ok.mp h
    cases hg
    exact ⟨hnone, fun path => Condition.bind_eq_ok.mpr ⟨x, hx, rfl⟩⟩
  | output =>
    obtain ⟨x, hx, hg⟩ := Condition.bind_eq_ok.mp h
    cases hg
    obtain rfl : x = none := hnone
    exact absurd hx once_ne_none
  | verbose | quiet | help | version | envelope | diff | fix => cases h

theorem heedlessStep_setFlag (o : OptionName) : HeedlessStep fun g => g.setFlag o := by
  intro g g' h hnone
  cases o with
  | verbose =>
    cases h
    exact ⟨hnone, fun _ => rfl⟩
  | quiet | envelope | diff | fix =>
    obtain ⟨x, hx, hg⟩ := Condition.bind_eq_ok.mp h
    cases hg
    exact ⟨hnone, fun path => Condition.bind_eq_ok.mpr ⟨x, hx, rfl⟩⟩
  | _ => cases h

theorem heedlessStep_setFile (file : String) : HeedlessStep fun g => g.setFile file := by
  intro g g' h hnone
  obtain ⟨x, hx, hg⟩ := Condition.bind_eq_ok.mp h
  cases hg
  exact ⟨hnone, fun path => Condition.bind_eq_ok.mpr ⟨x, hx, rfl⟩⟩

theorem heedlessStep_setFiles (files : List String) : HeedlessStep fun g => files.foldlM Given.setFile g := by
  induction files with
  | nil =>
    rintro g g' ⟨⟩ hnone
    exact ⟨hnone, fun _ => rfl⟩
  | cons file files ih =>
    intro g g' h hnone
    simp only [List.foldlM_cons] at h
    obtain ⟨g₁, hfile, hrest⟩ := Condition.bind_eq_ok.mp h
    obtain ⟨hnone₁, hrest⟩ := ih hrest hnone
    obtain ⟨hnone, hfile⟩ := heedlessStep_setFile file hfile hnone₁
    refine ⟨hnone, fun path => ?_⟩
    simp only [List.foldlM_cons]
    exact Condition.bind_eq_ok.mpr ⟨_, hfile path, hrest path⟩

/-! ### Whole readings -/

theorem heedless_readCluster (command : Option CommandName) (letters : List Char) :
    Heedless fun g => readCluster command g letters := by
  induction letters with
  | nil => exact heedless_return none
  | cons c rest ih =>
    cases hshort : OptionName.ofShort? command c with
    | none =>
      simp only [readCluster, hshort]
      exact heedless_error _
    | some o =>
      by_cases hvalue : o.takesValue
      · simp only [readCluster, hshort, if_pos hvalue]
        split
        · exact heedless_return _
        · exact (heedlessStep_set _ o).bind (heedless_return none)
        · exact (heedlessStep_set _ o).bind (heedless_return none)
      · simp only [readCluster, hshort, if_neg hvalue]
        exact (heedlessStep_setFlag o).bind ih

/-- **No argument looks at an output that was named before.** What an argument reads it leaves to the rest, and an option
that waits for its value takes the next argument as well, so the recursion goes down by one or by two. -/
theorem heedless_readArguments (command : Option CommandName) :
    ∀ arguments : List String, Heedless fun g => readArguments command g arguments
  | [] => heedless_return none
  | argument :: rest => by
    have ih := heedless_readArguments command rest
    conv =>
      enter [1, g]
      rw [readArguments]
    cases Token.ofArgument argument with
    | stop =>
      dsimp only
      split_ifs
      · exact heedless_return none
      · exact heedless_error _
      · exact (heedlessStep_setFiles rest).bind (heedless_return none)
    | long name attached =>
      dsimp only
      cases OptionName.ofLong? command name with
      | none => exact heedless_error _
      | some o =>
        cases attached with
        | some v =>
          dsimp only
          split_ifs
          · exact (heedlessStep_set v o).bind ih
          · exact heedless_error _
        | none =>
          cases rest with
          | nil =>
            dsimp only
            split_ifs
            · exact heedless_error _
            · exact (heedlessStep_setFlag o).bind (heedless_return none)
          | cons next rest =>
            dsimp only
            split_ifs
            · exact (heedlessStep_set next o).bind (heedless_readArguments command rest)
            · exact heedless_error _
            · exact (heedlessStep_setFlag o).bind ih
    | short letters =>
      dsimp only
      refine (heedless_readCluster command letters).bind fun wanting => ?_
      cases wanting with
      | none => exact ih
      | some o =>
        cases rest with
        | nil => exact heedless_error _
        | cons next rest =>
          dsimp only
          split_ifs
          · exact (heedlessStep_set next o).bind (heedless_readArguments command rest)
          · exact heedless_error _
    | word text =>
      dsimp only
      cases command with
      | some name => exact (heedlessStep_setFile text).bind ih
      | none =>
        dsimp only
        split
        · exact heedless_return _
        · exact heedless_error _

/-! ### The whole line -/

variable {environment : Option String} {arguments : List String} {i : Invocation}

/-- A command line asks for what is given before the command and after it. -/
theorem ofArguments_eq_run_iff : Request.ofArguments environment arguments = .run i ↔
    ∃ before name rest after left, readArguments none {} arguments = .ok (before, some (name, rest)) ∧
      readArguments (some name) {} rest = .ok (after, left) ∧ invocation? environment name before after = some i := by
  constructor
  · intro h
    unfold Request.ofArguments at h
    dsimp only at h
    split at h
    · rename_i result invocation hresult
      cases h
      obtain ⟨⟨before, command⟩, hbefore, hrest⟩ := Condition.bind_eq_ok.mp hresult
      cases command with
      | none => cases hrest
      | some command =>
        obtain ⟨name, rest⟩ := command
        obtain ⟨⟨after, left⟩, hafter, hinvocation⟩ := Condition.bind_eq_ok.mp hrest
        exact ⟨before, name, rest, after, left, hbefore, hafter, Except.ok.inj hinvocation⟩
    all_goals cases h
  · rintro ⟨before, name, rest, after, left, hbefore, hafter, hinvocation⟩
    unfold Request.ofArguments
    simp only [hbefore, hafter, hinvocation, Condition.ok_bind]
    rfl

theorem invocation?_eq_some_iff {name : CommandName} {before after : Given} :
    invocation? environment name before after = some i ↔
      commandOf? name after = some i.command ∧ after.file = some i.file ∧
      ¬ (environment = some "" ∧ ¬ (before.config.isSome ∧ after.config.isSome)) ∧
      i.config = (after.config.or before.config).or environment ∧ i.pointer = after.pointer.or before.pointer ∧
      i.output = after.output.or before.output ∧ i.format = (after.format.or before.format).getD .text ∧
      i.color = (after.color.or before.color).getD .auto := by
  obtain ⟨command, file, config, pointer, output, format, color⟩ := i
  cases hcommand : commandOf? name after with
  | none => simp [invocation?, hcommand]
  | some c =>
    cases hfile : after.file with
    | none => simp [invocation?, hcommand, hfile]
    | some f =>
      by_cases hempty : environment = some "" ∧ ¬ (before.config.isSome ∧ after.config.isSome)
      · simp only [invocation?, hcommand, hfile, hempty]
        simp
      · simp only [invocation?, hcommand, hfile, Option.bind_eq_bind, Option.bind_some, if_neg hempty, Option.pure_def,
          Option.some.injEq, Invocation.mk.injEq]
        grind

theorem ofArguments_sendTo {arguments' : List String} (h : Request.ofArguments environment arguments = .run i)
    (hnone : i.output = none)
    (hread : readArguments none {} arguments' = readArguments none (({} : Given).sendTo path) arguments) :
    Request.ofArguments environment arguments' = .run { i with output := some path } := by
  obtain ⟨before, name, rest, after, left, hbefore, hafter, hinvocation⟩ := ofArguments_eq_run_iff.mp h
  obtain ⟨hcommand, hfile, hset, hconfig, hpointer, houtput, hformat, hcolor⟩ := invocation?_eq_some_iff.mp hinvocation
  rw [houtput, Option.or_eq_none_iff] at hnone
  obtain ⟨-, hbefore⟩ := heedless_readArguments none arguments hbefore hnone.2
  have houtput' : some path = after.output.or (some path) := by rw [hnone.1, Option.none_or]
  exact ofArguments_eq_run_iff.mpr ⟨before.sendTo path, name, rest, after, left, hread.trans (hbefore path), hafter,
    invocation?_eq_some_iff.mpr ⟨hcommand, hfile, hset, hconfig, hpointer, houtput', hformat, hcolor⟩⟩

theorem set_output (hpath : path ≠ "") : ({} : Given).set path .output = .ok (({} : Given).sendTo path) := by
  have hread : readPath path = some path := if_neg hpath
  simp only [Given.set, hread]
  rfl

/-- An output may be named in one argument, whatever its path looks like. -/
theorem ofArguments_attached (h : Request.ofArguments environment arguments = .run i) (hnone : i.output = none)
    (hpath : path ≠ "") :
    Request.ofArguments environment (("--output=" ++ path) :: arguments) = .run { i with output := some path } := by
  have htoken : Token.ofArgument ("--output=" ++ path) = .long "output" (some path) := by
    have hlist : ("--output=" ++ path).toList = "--output=".toList ++ path.toList := String.toList_append
    rw [Token.ofArgument, hlist]
    show Token.long (String.ofList "output".toList) (some (String.ofList path.toList)) = _
    rw [String.ofList_toList, String.ofList_toList]
  refine ofArguments_sendTo h hnone ?_
  rw [readArguments, htoken]
  show (do readArguments none (← ({} : Given).set path .output) arguments) = _
  rw [set_output hpath, Condition.ok_bind]

/-- An output may be named in two arguments, if its path does not look like an option. -/
theorem ofArguments_separate (h : Request.ofArguments environment arguments = .run i) (hnone : i.output = none)
    (hpath : path ≠ "") (hword : Token.ofArgument path = .word path) :
    Request.ofArguments environment ("-o" :: path :: arguments) = .run { i with output := some path } := by
  have htoken : Token.ofArgument "-o" = .short ['o'] := by decide
  have hvalue : mayBeValue .output path = true := by
    rw [mayBeValue, hword]
  refine ofArguments_sendTo h hnone ?_
  rw [readArguments, htoken]
  show (if mayBeValue .output path then do readArguments none (← ({} : Given).set path .output) arguments
    else Except.error Stop.misuse) = _
  rw [if_pos hvalue, set_output hpath, Condition.ok_bind]

end ConditionTree.CommandLine
