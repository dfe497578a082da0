import MirrorAdapter.CommandLine.Run

/-!
# Options

The words after the command are whole options, each of them a flag or a
setting with its value. What arguments give for a setting was given by options
of that setting, and the arguments without a value each come from a flag of
their own.
-/
namespace MirrorAdapter
namespace CommandLine

/-- A whole option as it is given. -/
inductive Choice where
  | flag (word : Text)
  | value (setting : Setting) (text : Text)
deriving Repr, DecidableEq

namespace Choice

def words : Choice → List Text
  | flag word => [word]
  | value setting text => [setting.word, text]

/-- The word by which an option is called. -/
def name : Choice → Text
  | flag word => word
  | value setting _ => setting.word

/-- What an option asks for, if it is known and its value makes sense. -/
def argument? : Choice → Option Argument
  | flag word => flags.lookup word
  | value setting text => (setting.withValue text).toOption

def IsValid (c : Choice) : Prop := c.argument?.isSome = true

instance (c : Choice) : Decidable c.IsValid :=
  inferInstanceAs (Decidable (_ = _))

/-- The text given for a setting, if the option is about that. -/
def textFor (s : Setting) : Choice → Option Text
  | flag _ => none
  | value setting text => if setting = s then some text else none

end Choice

open Choice (textFor)

/-- The texts given for a setting, in their order. -/
def textsFor (s : Setting) (choices : List Choice) : List Text :=
  choices.filterMap (textFor s)

/-- The words by which a flag asks for help. -/
def helpFlags : List Text := ["--help", "-h"]

def AsksForHelp (choices : List Choice) : Prop :=
  ∃ word ∈ helpFlags, .flag word ∈ choices

/-! ## Arguments -/

/-- The arguments that options amount to. -/
def argumentsOf (choices : List Choice) : List Argument :=
  choices.filterMap Choice.argument?

variable {choices : List Choice}

/-- Whole options are read one by one. -/
theorem readArguments_words (valid : ∀ c ∈ choices, c.IsValid) :
    readArguments (choices.flatMap Choice.words) =
      .ok (argumentsOf choices) := by
  induction choices with
  | nil => rfl
  | cons c choices ih =>
    have later := ih fun c' inside => valid c' (.tail _ inside)
    obtain ⟨argument, known⟩ :=
      Option.isSome_iff_exists.mp (valid c (.head _))
    rw [argumentsOf, List.filterMap_cons_some known, List.flatMap_cons]
    cases c with
    | flag word =>
      have flag : flags.lookup word = some argument := known
      rw [Choice.words, List.singleton_append, readArguments.eq_def]
      dsimp only
      rw [flag, later]
      rfl
    | value setting text =>
      have noFlag : flags.lookup setting.word = none := by
        cases setting <;> rfl
      have named : Setting.ofWord? setting.word = some setting := by
        cases setting <;> rfl
      have made : setting.withValue text = .ok argument := by
        cases result : setting.withValue text with
        | error e => simp [Choice.argument?, result, Except.toOption] at known
        | ok a =>
          simpa [Choice.argument?, result, Except.toOption] using known
      rw [Choice.words, List.cons_append, List.singleton_append,
        readArguments.eq_def]
      dsimp only
      rw [noFlag, named]
      dsimp only
      rw [made, later]
      rfl

theorem Choice.textFor_eq_some_iff {s : Setting} {text : Text} {c : Choice} :
    textFor s c = some text ↔ c = .value s text := by
  cases c with
  | flag word => simp [textFor]
  | value setting text' => simp [textFor]

theorem mem_textsFor {s : Setting} {text : Text} :
    text ∈ textsFor s choices ↔ .value s text ∈ choices := by
  simp [textsFor, Choice.textFor_eq_some_iff]

theorem mem_flags_of_lookup {word : Text} {argument : Argument}
    (found : flags.lookup word = some argument) :
    (word, argument) ∈ flags := by
  obtain ⟨front, back, split, -⟩ := List.lookup_eq_some_iff.mp found
  rw [split]
  exact List.mem_append_right _ (.head _)

/-- The setting that an argument is about. -/
def Argument.setting? : Argument → Option Setting
  | .input _ => some .input
  | .config _ => some .config
  | .outDir _ => some .outDir
  | .jobs _ => some .jobs
  | .fileMode _ => some .fileMode
  | _ => none

theorem setting?_of_withValue {s : Setting} {text : Text} {a : Argument}
    (made : s.withValue text = .ok a) : a.setting? = some s := by
  unfold Setting.withValue at made
  split at made <;> (try split at made) <;> cases made <;> rfl

/-- The values of arguments are those of the options of a setting. -/
structure Reads {α : Type} (s : Setting) (value : Argument → Option α)
    (read : Text → Option α) : Prop where
  own : ∀ text, (s.withValue text).toOption.bind value = read text
  about : ∀ a, (value a).isSome = true ↔ a.setting? = some s

theorem reads_input : Reads .input Argument.input? some where
  own text := rfl
  about a := by cases a <;> simp [Argument.input?, Argument.setting?]

theorem reads_config : Reads .config Argument.config? some where
  own text := rfl
  about a := by cases a <;> simp [Argument.config?, Argument.setting?]

theorem reads_outDir : Reads .outDir Argument.outDir? some where
  own text := rfl
  about a := by cases a <;> simp [Argument.outDir?, Argument.setting?]

theorem reads_jobs : Reads .jobs Argument.jobs? Setting.jobCount? where
  own text := by
    rw [Setting.withValue]
    cases Setting.jobCount? text <;> rfl
  about a := by cases a <;> simp [Argument.jobs?, Argument.setting?]

theorem reads_fileMode :
    Reads .fileMode Argument.fileMode? FileMode.parse? where
  own text := by
    rw [Setting.withValue]
    cases FileMode.parse? text <;> rfl
  about a := by cases a <;> simp [Argument.fileMode?, Argument.setting?]

section
variable {α : Type} {s : Setting} {value : Argument → Option α}
    {read : Text → Option α} (h : Reads s value read)
include h

theorem Reads.value_eq_none {a : Argument} (other : a.setting? ≠ some s) :
    value a = none := by
  rw [← Option.not_isSome_iff_eq_none, h.about]
  exact other

theorem Reads.filterMap_argumentsOf :
    (argumentsOf choices).filterMap value =
      (textsFor s choices).filterMap read := by
  rw [argumentsOf, textsFor, List.filterMap_filterMap, List.filterMap_filterMap]
  congr 1
  funext c
  cases c with
  | flag word =>
    cases found : flags.lookup word with
    | none => simp [Choice.argument?, textFor, found]
    | some argument =>
      have none_set : ∀ entry ∈ flags, entry.2.setting? = none := by decide
      have other : argument.setting? ≠ some s := by
        simp [none_set _ (mem_flags_of_lookup found)]
      simp [Choice.argument?, textFor, found, h.value_eq_none other]
  | value setting text =>
    by_cases same : setting = s
    · subst same
      simp [Choice.argument?, textFor, h.own]
    · cases made : setting.withValue text with
      | error e =>
        simp [Choice.argument?, textFor, same, made, Except.toOption]
      | ok a =>
        have other : a.setting? ≠ some s := by
          simpa [setting?_of_withValue made] using same
        simp [Choice.argument?, textFor, same, made, Except.toOption,
          h.value_eq_none other]

/-- A text that is given makes sense. -/
theorem Reads.isSome_read (valid : ∀ c ∈ choices, c.IsValid) {text : Text}
    (given : text ∈ textsFor s choices) : (read text).isSome = true := by
  have known := valid _ (mem_textsFor.mp given)
  cases made : s.withValue text with
  | error e =>
    simp [Choice.IsValid, Choice.argument?, made, Except.toOption] at known
  | ok a =>
    rw [← h.own, made]
    exact (h.about a).mpr (setting?_of_withValue made)

/-- The last text that is given, if there is any. -/
theorem Reads.last_cases (valid : ∀ c ∈ choices, c.IsValid) :
    textsFor s choices = [] ∨ ∃ front last v,
      textsFor s choices = front ++ [last] ∧ read last = some v := by
  rcases List.eq_nil_or_concat (textsFor s choices)
      with unset | ⟨front, last, given⟩
  · exact .inl unset
  · rw [List.concat_eq_append] at given
    have inside : last ∈ textsFor s choices := by
      rw [given]
      exact List.mem_append_right _ (.head _)
    obtain ⟨v, sound⟩ :=
      Option.isSome_iff_exists.mp (h.isSome_read valid inside)
    exact .inr ⟨front, last, v, given, sound⟩

/-- The last text that is given settles the last value. -/
theorem Reads.lastValue_argumentsOf (valid : ∀ c ∈ choices, c.IsValid) :
    lastValue value (argumentsOf choices) =
      (textsFor s choices).getLast?.bind read := by
  rw [lastValue, h.filterMap_argumentsOf]
  rcases h.last_cases valid with unset | ⟨front, last, v, given, sound⟩
  · rw [unset]
    rfl
  · rw [given, List.filterMap_append, List.filterMap_cons_some sound,
      List.filterMap_nil, List.getLast?_concat, List.getLast?_concat,
      Option.bind_some, sound]

end

theorem mem_argumentsOf_iff {a : Argument} (flag : a.setting? = none) :
    a ∈ argumentsOf choices ↔
      ∃ word, .flag word ∈ choices ∧ flags.lookup word = some a := by
  rw [argumentsOf, List.mem_filterMap]
  constructor
  · rintro ⟨c, given, made⟩
    cases c with
    | flag word => exact ⟨word, given, made⟩
    | value setting text =>
      cases result : setting.withValue text with
      | error e => simp [Choice.argument?, result, Except.toOption] at made
      | ok b =>
        obtain rfl : b = a := by
          simpa [Choice.argument?, result, Except.toOption] using made
        rw [setting?_of_withValue result] at flag
        cases flag
  · rintro ⟨word, given, known⟩
    exact ⟨.flag word, given, known⟩

/-- The argument is asked for by a word of its own. -/
structure IsFlag (word : Text) (a : Argument) : Prop where
  about : a.setting? = none
  known : flags.lookup word = some a
  only : ∀ entry ∈ flags, entry.2 = a → entry.1 = word

theorem isFlag_dryRun : IsFlag "--dry-run" .dryRun := ⟨rfl, rfl, by decide⟩

theorem isFlag_noOverwrite : IsFlag "--no-overwrite" .noOverwrite :=
  ⟨rfl, rfl, by decide⟩

theorem isFlag_writeDepfiles : IsFlag "--write-depfiles" .writeDepfiles :=
  ⟨rfl, rfl, by decide⟩

theorem isFlag_listOutputs : IsFlag "--list-outputs" .listOutputs :=
  ⟨rfl, rfl, by decide⟩

theorem IsFlag.contains_argumentsOf {word : Text}
    {a : Argument} (h : IsFlag word a) :
    (argumentsOf choices).contains a = true ↔ .flag word ∈ choices := by
  rw [List.contains_iff_mem, mem_argumentsOf_iff h.about]
  constructor
  · rintro ⟨word', given, known⟩
    have same : word' = word := h.only _ (mem_flags_of_lookup known) rfl
    rwa [same] at given
  · intro given
    exact ⟨word, given, h.known⟩

theorem contains_help_argumentsOf :
    (argumentsOf choices).contains .help = true ↔ AsksForHelp choices := by
  rw [List.contains_iff_mem, mem_argumentsOf_iff rfl]
  constructor
  · rintro ⟨word, given, known⟩
    refine ⟨word, ?_, given⟩
    have every : ∀ entry ∈ flags, entry.2 = .help → entry.1 ∈ helpFlags := by
      decide
    exact every _ (mem_flags_of_lookup known) rfl
  · rintro ⟨word, asks, given⟩
    have every : ∀ word ∈ helpFlags, flags.lookup word = some .help := by
      decide
    exact ⟨word, given, every word asks⟩

end CommandLine
end MirrorAdapter
