import MirrorAdapter.Proofs.CommandLine.Changes
import MirrorAdapter.Proofs.CommandLine.Options
import MirrorAdapter.Proofs.Discovery.Inputs
import MirrorAdapter.Proofs.Json.RoundTrip
import MirrorAdapter.Support.Standard

/-!
# What options decide

What a run does is settled by the set of the inputs, the last value of every
other setting, and which flags are given. So the order of the options does not
matter but among those for one setting, and neither does how often an input is
given.
-/
namespace MirrorAdapter
namespace CommandLine

open Choice (textFor)

def Choice.isInput : Choice → Bool
  | .value .input _ => true
  | _ => false

/-- The same inputs, the same last values of other settings, and the same
flags. -/
structure SameChoices (choices choices' : List Choice) : Prop where
  inputs : ∀ p, .value .input p ∈ choices ↔ .value .input p ∈ choices'
  settings : ∀ s, s ≠ .input →
      (textsFor s choices).getLast? = (textsFor s choices').getLast?
  flags :
    ∀ word, word ∉ helpFlags → (.flag word ∈ choices ↔ .flag word ∈ choices')
  help : AsksForHelp choices ↔ AsksForHelp choices'

/-- The value of a setting: the last one given, else that of the
configuration, else the default. -/
inductive IsChosen {α : Type} (read : Text → Option α) :
    List Text → Option α → α → α → Prop where
  | given {front : List Text} {last : Text}
      {configured : Option α} {default v : α} :
      read last = some v → IsChosen read (front ++ [last]) configured default v
  | configured {default v : α} : IsChosen read [] (some v) default v
  | default {v : α} : IsChosen read [] none v v

/-- The settings that options and a configuration come to, as an emission goes
by them. -/
structure Effective (config : Config) (choices : List Choice)
    (s : Settings) : Prop where
  inputs : s.inputs = config.inputs ++ textsFor .input choices
  outDir : IsChosen some (textsFor .outDir choices) config.outDir [] s.outDir
  root : s.emission.outDir = s.outDir
  jobs :
    IsChosen Setting.jobCount? (textsFor .jobs choices) config.jobs 1 s.jobs
  fileMode : IsChosen FileMode.parse? (textsFor .fileMode choices)
      config.fileMode FileMode.readOnly s.emission.policy.fileMode
  dryRun : s.emission.policy.dryRun = true ↔
      .flag "--dry-run" ∈ choices ∨ config.dryRun = some true
  noOverwrite : s.emission.policy.noOverwrite = true ↔
    .flag "--no-overwrite" ∈ choices ∨ config.noOverwrite = some true
  writeDepfiles : s.emission.writeDepfiles = true ↔
    .flag "--write-depfiles" ∈ choices ∨ config.writeDepfiles = some true
  listOutputs : s.listOutputs = true ↔ .flag "--list-outputs" ∈ choices

/-- What the members of an object give for a configuration, each setting under
a key of its own. -/
structure Gives (base : Path) (members : List (Text × JsonValue))
    (config : Config) : Prop where
  inputs :
    (Config.setting members "inputs" (Config.readInputs base)).map (·.getD []) =
      .ok config.inputs
  outDir : Config.setting members "outDir" (Config.readOutDir base) =
      .ok config.outDir
  jobs : Config.setting members "jobs" Config.readJobs = .ok config.jobs
  fileMode :
    Config.setting members "fileMode" Config.readFileMode = .ok config.fileMode
  dryRun : Config.setting members "dryRun" (Config.readFlag "dryRun") =
      .ok config.dryRun
  noOverwrite :
    Config.setting members "noOverwrite" (Config.readFlag "noOverwrite") =
      .ok config.noOverwrite
  writeDepfiles :
    Config.setting members "writeDepfiles" (Config.readFlag "writeDepfiles") =
      .ok config.writeDepfiles

/-- The configuration in the file that is named last; an empty name stands for
none. -/
inductive Configured [Support] (fs : FileSystem) (choices : List Choice) :
    Config → Prop where
  | unnamed :
      (textsFor .config choices).getLast?.getD [] = [] →
      Configured fs choices {}
  | file {p : Path} {text : Text}
      {members : List (Text × JsonValue)} {config : Config} :
      (textsFor .config choices).getLast? = some p →
      p ≠ [] → fs.fileText? p = some text →
      Support.parseJson text = .ok (.object members) →
      Gives (Path.parent p) members config → Configured fs choices config

variable {choices choices' : List Choice}

/-! ## Settings -/

/-- The last text that is given decides before the configuration, and that
before the default. -/
theorem Reads.isChosen {α : Type} {s : Setting} {value : Argument → Option α}
    {read : Text → Option α} (h : Reads s value read)
    (valid : ∀ c ∈ choices, c.IsValid) (configured : Option α) (default : α) :
    IsChosen read (textsFor s choices) configured default
      (((lastValue value (argumentsOf choices)).or configured).getD
        default) := by
  rw [h.lastValue_argumentsOf valid]
  rcases h.last_cases valid with unset | ⟨front, last, v, given, sound⟩
  · rw [unset]
    cases configured with
    | none => exact .default
    | some v => exact .configured
  · rw [given, List.getLast?_concat, Option.bind_some, sound]
    exact .given sound

theorem effective_of (config : Config) (valid : ∀ c ∈ choices, c.IsValid) :
    Effective config choices (Settings.of config (argumentsOf choices)) where
  inputs := by
    rw [Settings.of, reads_input.filterMap_argumentsOf, List.filterMap_some]
  outDir := reads_outDir.isChosen valid config.outDir []
  root := rfl
  jobs := reads_jobs.isChosen valid config.jobs 1
  fileMode := reads_fileMode.isChosen valid config.fileMode FileMode.readOnly
  dryRun := by
    rw [Settings.emission, Settings.of, Bool.or_eq_true,
      isFlag_dryRun.contains_argumentsOf]
    cases config.dryRun <;> simp
  noOverwrite := by
    rw [Settings.emission, Settings.of, Bool.or_eq_true,
      isFlag_noOverwrite.contains_argumentsOf]
    cases config.noOverwrite <;> simp
  writeDepfiles := by
    rw [Settings.emission, Settings.of, Bool.or_eq_true,
      isFlag_writeDepfiles.contains_argumentsOf]
    cases config.writeDepfiles <;> simp
  listOutputs := isFlag_listOutputs.contains_argumentsOf

theorem Gives.ofMembers_eq {base : Path} {members : List (Text × JsonValue)}
    {config : Config} (h : Gives base members config) :
    Config.ofMembers base members = .ok config := by
  obtain ⟨inputs, given, same⟩ :
      ∃ inputs,
        Config.setting members "inputs" (Config.readInputs base) = .ok inputs ∧
        inputs.getD [] = config.inputs := by
    have inputs := h.inputs
    cases given : Config.setting members "inputs" (Config.readInputs base) with
    | error e => simp [given, Except.map] at inputs
    | ok found =>
      exact ⟨found, rfl, by simpa [given, Except.map] using inputs⟩
  simp only [Config.ofMembers, given, h.outDir, h.jobs, h.fileMode,
    h.dryRun, h.noOverwrite, h.writeDepfiles, bind, Except.bind, same]
  rfl

theorem configuration_of [Support] {fs : FileSystem} {config : Config}
    (valid : ∀ c ∈ choices, c.IsValid) (h : Configured fs choices config) :
    configuration fs (argumentsOf choices) = .ok config := by
  unfold configuration
  rw [reads_config.lastValue_argumentsOf valid]
  cases h with
  | unnamed unnamed =>
    cases given : (textsFor .config choices).getLast? with
    | none => rfl
    | some p =>
      rw [given, Option.getD_some] at unnamed
      rw [Option.bind_some, unnamed]
      rfl
  | @file p text members _ given named read object gives =>
    have something : p.isEmpty = false := by simpa using named
    rw [given, Option.bind_some]
    dsimp only
    rw [something, if_neg Bool.false_ne_true, Config.load, read]
    dsimp only
    rw [Config.parse, object]
    dsimp only [JsonValue.members?]
    rw [gives.ofMembers_eq]
    rfl

/-- The same choices come to the same settings but for the order of the
inputs. -/
theorem SameChoices.settings_eq (same : SameChoices choices choices')
    (valid : ∀ c ∈ choices, c.IsValid) (valid' : ∀ c ∈ choices', c.IsValid)
    (config : Config) :
    Settings.of config (argumentsOf choices') =
      { Settings.of config (argumentsOf choices) with
        inputs := config.inputs ++ textsFor .input choices' } := by
  have outDir := same.settings .outDir (by decide)
  have jobs := same.settings .jobs (by decide)
  have fileMode := same.settings .fileMode (by decide)
  have flag {word : Text} {a : Argument}
      (h : IsFlag word a) (other : word ∉ helpFlags) :
      (argumentsOf choices').contains a = (argumentsOf choices).contains a := by
    rw [Bool.eq_iff_iff, h.contains_argumentsOf, h.contains_argumentsOf,
      same.flags word other]
  simp only [Settings.of, reads_input.filterMap_argumentsOf,
    List.filterMap_some, reads_outDir.lastValue_argumentsOf valid,
    reads_outDir.lastValue_argumentsOf valid',
    reads_jobs.lastValue_argumentsOf valid,
    reads_jobs.lastValue_argumentsOf valid',
    reads_fileMode.lastValue_argumentsOf valid,
    reads_fileMode.lastValue_argumentsOf valid', outDir, jobs, fileMode,
    flag isFlag_dryRun (by decide), flag isFlag_noOverwrite (by decide),
    flag isFlag_writeDepfiles (by decide), flag isFlag_listOutputs (by decide)]

theorem SameChoices.configuration_eq [Support]
    (same : SameChoices choices choices') (valid : ∀ c ∈ choices, c.IsValid)
    (valid' : ∀ c ∈ choices', c.IsValid) (fs : FileSystem) :
    configuration fs (argumentsOf choices') =
      configuration fs (argumentsOf choices) := by
  rw [configuration, configuration, reads_config.lastValue_argumentsOf valid,
    reads_config.lastValue_argumentsOf valid',
    same.settings .config (by decide)]

/-! ## Inputs -/

/-- Inputs that lead somewhere are reported nowhere, so it does not matter in
which order they are given. -/
theorem find_append_eq {fs : FileSystem} {front inputs inputs' : List Path}
    (exist : ∀ p ∈ inputs, (fs.status p).isOk = true)
    (same : ∀ p, p ∈ inputs ↔ p ∈ inputs') :
    Discovery.find fs (front ++ inputs') =
      Discovery.find fs (front ++ inputs) := by
  have listed :
      Discovery.listing fs (front ++ inputs') =
        Discovery.listing fs (front ++ inputs) := by
    apply Discovery.listing_congr
    simp only [List.mem_append, same, implies_true]
  have silent {paths : List Path}
      (exist : ∀ p ∈ paths, (fs.status p).isOk = true) :
      (paths.filter fun p => !(fs.status p).isOk) = [] := by
    rw [List.filter_eq_nil_iff]
    intro p inside
    rw [exist p inside]
    exact Bool.false_ne_true
  rw [Discovery.find_eq, Discovery.find_eq, listed,
    List.filter_append, List.filter_append, silent exist,
    silent fun p inside => exist p ((same p).mpr inside)]

theorem SameChoices.inputs_eq_nil_iff (same : SameChoices choices choices') :
    textsFor .input choices' = [] ↔ textsFor .input choices = [] := by
  rw [List.eq_nil_iff_forall_not_mem, List.eq_nil_iff_forall_not_mem]
  simp only [mem_textsFor, same.inputs]

theorem SameChoices.readModule_eq (same : SameChoices choices choices')
    {fs : FileSystem}
    (exist : ∀ p, .value .input p ∈ choices → (fs.status p).isOk = true)
    (front : List Path) :
    Discovery.readModule fs (front ++ textsFor .input choices') =
      Discovery.readModule fs (front ++ textsFor .input choices) := by
  have found : Discovery.find fs (front ++ textsFor .input choices') =
      Discovery.find fs (front ++ textsFor .input choices) := by
    apply find_append_eq
    · intro p inside
      exact exist p (mem_textsFor.mp inside)
    · intro p
      rw [mem_textsFor, mem_textsFor]
      exact same.inputs p
  rw [Discovery.readModule, Discovery.readModule, found]

/-! ## Runs -/

/-- The run on a command with whole options. -/
def runWith [Support] (env : Environment) (command : Command)
    (choices : List Choice) : Outcome :=
  run env (command.word :: choices.flatMap Choice.words)

/-- Help goes before everything else. -/
theorem runWith_eq_ite [Support] (env : Environment) (command : Command)
    (valid : ∀ c ∈ choices, c.IsValid) : runWith env command choices =
      if (argumentsOf choices).contains .help then
        { exitCode := 0, messages := help (some command),
          fileSystem := env.fileSystem }
      else execute env command (argumentsOf choices) := by
  have noHelp : helpWords.contains command.word = false := by
    cases command <;> rfl
  have known : Command.ofWord? command.word = some command := by
    cases command <;> rfl
  rw [runWith, run, readWords, noHelp, known]
  simp only [Bool.false_eq_true, if_false, readArguments_words valid]
  by_cases help : (argumentsOf choices).contains .help = true
  · rw [if_pos help]
    simp only [bind, Except.bind, help, if_true]
    rfl
  · rw [if_neg help]
    simp only [bind, Except.bind, help]
    rfl

theorem execute_eq_perform [Support] {env : Environment}
    {arguments : List Argument} {config : Config} (command : Command)
    (configured : configuration env.fileSystem arguments = .ok config) :
    execute env command arguments =
      perform env command (Settings.of config arguments) := by
  rw [execute, configured]

/-- The inputs show in nothing but what is read. -/
theorem perform_congr [Support] {env : Environment} {s s' : Settings}
    (command : Command) (settings : s' = { s with inputs := s'.inputs })
    (inputs : s'.inputs = [] ↔ s.inputs = [])
    (read : Discovery.readModule env.fileSystem s'.inputs =
        Discovery.readModule env.fileSystem s.inputs) :
    perform env command s' = perform env command s := by
  have isEmpty : s'.inputs.isEmpty = s.inputs.isEmpty := by
    rw [Bool.eq_iff_iff, List.isEmpty_iff, List.isEmpty_iff, inputs]
  unfold perform
  dsimp only
  rw [isEmpty, read]
  split
  · rfl
  · split
    · rfl
    · cases command with
      | ast => rfl
      | table => rfl
      | cpp =>
        dsimp only
        rw [settings]
        rfl

theorem SameChoices.execute_eq [Support] (same : SameChoices choices choices')
    (valid : ∀ c ∈ choices, c.IsValid) (valid' : ∀ c ∈ choices', c.IsValid)
    (env : Environment) (command : Command)
    (exist :
      ∀ p, .value .input p ∈ choices → (env.fileSystem.status p).isOk = true) :
    execute env command (argumentsOf choices') =
      execute env command (argumentsOf choices) := by
  have alike := same.configuration_eq valid valid' env.fileSystem
  cases configured : configuration env.fileSystem (argumentsOf choices) with
  | error e => rw [execute, execute, alike, configured]
  | ok config =>
    have inputs := (effective_of config valid).inputs
    have inputs' := (effective_of config valid').inputs
    rw [execute_eq_perform command configured,
      execute_eq_perform command (alike.trans configured)]
    apply perform_congr
    · rw [inputs']
      exact same.settings_eq valid valid' config
    · rw [inputs, inputs', List.append_eq_nil_iff, List.append_eq_nil_iff,
        same.inputs_eq_nil_iff]
    · rw [inputs, inputs']
      exact same.readModule_eq exist config.inputs

theorem SameChoices.runWith_eq [Support] (same : SameChoices choices choices')
    (valid : ∀ c ∈ choices, c.IsValid) (valid' : ∀ c ∈ choices', c.IsValid)
    (env : Environment) (command : Command)
    (exist :
      ∀ p, .value .input p ∈ choices → (env.fileSystem.status p).isOk = true) :
    runWith env command choices' = runWith env command choices := by
  have help :
      (argumentsOf choices').contains .help =
        (argumentsOf choices).contains .help := by
    rw [Bool.eq_iff_iff, contains_help_argumentsOf, contains_help_argumentsOf]
    exact same.help.symm
  rw [runWith_eq_ite env command valid, runWith_eq_ite env command valid',
    help, same.execute_eq valid valid' env command exist]

theorem runWith_eq_perform [Support] {env : Environment}
    (command : Command) (valid : ∀ c ∈ choices, c.IsValid)
    {config : Config} (noHelp : ¬AsksForHelp choices)
    (configured : Configured env.fileSystem choices config) :
    runWith env command choices =
      perform env command (Settings.of config (argumentsOf choices)) := by
  rw [runWith_eq_ite env command valid,
    if_neg (mt contains_help_argumentsOf.mp noHelp)]
  exact execute_eq_perform command (configuration_of valid configured)

/-! ## Other orders -/

theorem textsFor_filter {s : Setting} (keep : Choice → Bool)
    (kept : ∀ text, keep (.value s text) = true) (choices : List Choice) :
    textsFor s (choices.filter keep) = textsFor s choices := by
  rw [textsFor, textsFor, List.filterMap_filter]
  congr 1
  funext c
  cases found : textFor s c with
  | none => simp
  | some text =>
    rw [Choice.textFor_eq_some_iff.mp found, kept]
    simp

/-- Each option keeps its place among those of its name. -/
theorem SameChoices.of_filter_name (moved : choices'.Perm choices)
    (kept : ∀ name, (choices'.filter fun c => c.name == name) =
          choices.filter fun c => c.name == name) :
    SameChoices choices choices' where
  inputs p := moved.mem_iff.symm
  settings s _ := by
    have own (text : Text) : ((Choice.value s text).name == s.word) = true := by
      simp [Choice.name]
    rw [← textsFor_filter (·.name == s.word) own choices,
      ← textsFor_filter (·.name == s.word) own choices', kept]
  flags word _ := moved.mem_iff.symm
  help := by simp only [AsksForHelp, moved.mem_iff]

/-- Inputs are given in any order and any number. -/
theorem SameChoices.of_filter_isInput (same : ∀ c, c ∈ choices' ↔ c ∈ choices)
    (kept : (choices'.filter fun c => !c.isInput) =
        choices.filter fun c => !c.isInput) :
    SameChoices choices choices' where
  inputs p := (same _).symm
  settings s other := by
    have noInput (text : Text) : (!(Choice.value s text).isInput) = true := by
      cases s <;> simp_all [Choice.isInput]
    rw [← textsFor_filter (!·.isInput) noInput choices,
      ← textsFor_filter (!·.isInput) noInput choices', kept]
  flags word _ := (same _).symm
  help := by simp only [AsksForHelp, same]

/-- The outcome of a run is settled by the command, the set of the inputs, the
last values of the other settings and the flags, if the inputs exist. So whole
options can change places if those of one name keep their order, and inputs
can be given in any order and any number. What a command is performed with is
the last value given for each setting, else that of the configuration, else
the default; the inputs of the configuration are added to those given. -/
theorem run_of_choices [Support] (env : Environment)
    (command : Command) (valid : ∀ c ∈ choices, c.IsValid)
    (exist :
      ∀ p, .value .input p ∈ choices → (env.fileSystem.status p).isOk = true) :
    (∀ choices', (∀ c ∈ choices', c.IsValid) → SameChoices choices choices' →
        runWith env command choices' = runWith env command choices) ∧
    (∀ choices' : List Choice, choices'.Perm choices →
        (∀ name, (choices'.filter fun c => c.name == name) =
              choices.filter fun c => c.name == name) →
        runWith env command choices' = runWith env command choices) ∧
    (∀ choices' : List Choice, (∀ c, c ∈ choices' ↔ c ∈ choices) →
        ((choices'.filter fun c => !c.isInput) =
            choices.filter fun c => !c.isInput) →
        runWith env command choices' = runWith env command choices) ∧
    ∀ config, ¬AsksForHelp choices → Configured env.fileSystem choices config →
      ∃ s, Effective config choices s ∧
        runWith env command choices = perform env command s := by
  refine ⟨?_, ?_, ?_, ?_⟩
  · intro choices' valid' same
    exact same.runWith_eq valid valid' env command exist
  · intro choices' moved kept
    have valid' : ∀ c ∈ choices', c.IsValid :=
      fun c inside => valid c (moved.mem_iff.mp inside)
    exact (SameChoices.of_filter_name moved kept).runWith_eq valid valid'
      env command exist
  · intro choices' same kept
    have valid' : ∀ c ∈ choices', c.IsValid :=
      fun c inside => valid c ((same c).mp inside)
    exact (SameChoices.of_filter_isInput same kept).runWith_eq valid valid'
      env command exist
  · intro config noHelp configured
    exact ⟨_, effective_of config valid,
      runWith_eq_perform command valid noHelp configured⟩

/-- The members of a configuration. -/
def dryMembers : List (Text × JsonValue) :=
  [("inputs", .array [.string "y"]), ("fileMode", .string "600"),
    ("dryRun", .bool true)]

/-- The text of a configuration with these members. -/
def dryText : Text := JsonValue.render 0 (.object dryMembers) ++ "\n"

/-- A file with that text, and two empty files. -/
def configured : Environment where
  fileSystem :=
    { entries :=
        [([Text.ofString "c"], .file ⟨0o644, dryText⟩),
          ([Text.ofString "x"], .file ⟨0o644, []⟩),
          ([Text.ofString "y"], .file ⟨0o644, []⟩)] ++
        emptyRuntime }
  sources := "b"

/-- What the members give. -/
def dryConfig : Config where
  inputs := ["y"]
  fileMode := some 0o600
  dryRun := some true

theorem gives_dryMembers : Gives (Path.parent "c") dryMembers dryConfig where
  inputs := by rfl
  outDir := by rfl
  jobs := by rfl
  fileMode := by rfl
  dryRun := by rfl
  noOverwrite := by rfl
  writeDepfiles := by rfl

/-- Two output directories, of which the second counts. -/
def severalChoices : List Choice :=
  [.value .outDir "a", .value .input "x", .value .config "c",
    .flag "--list-outputs", .value .outDir "o"]

/-- The same with the input given twice, at other places. -/
def repeatedInput : List Choice :=
  [.value .outDir "a", .value .config "c", .flag "--list-outputs",
    .value .input "x", .value .outDir "o", .value .input "x"]

section
open Support.Standard

theorem run_of_choices_repeatedInput :
    (∀ c ∈ severalChoices, c.IsValid) ∧
    (∀ p, .value .input p ∈ severalChoices →
        (configured.fileSystem.status p).isOk = true) ∧
    runWith configured .cpp repeatedInput =
      runWith configured .cpp severalChoices ∧
    ∃ s, Effective dryConfig severalChoices s ∧
      runWith configured .cpp severalChoices = perform configured .cpp s := by
  have valid : ∀ c ∈ severalChoices, c.IsValid := by decide
  have exist :
      ∀ p, .value .input p ∈ severalChoices →
        (configured.fileSystem.status p).isOk = true := by
    intro p given
    obtain rfl : p = Text.ofString "x" := by
      simpa [severalChoices] using given
    decide +kernel
  have given : ∀ c ∈ repeatedInput, c ∈ severalChoices := by decide
  have given' : ∀ c ∈ severalChoices, c ∈ repeatedInput := by decide
  have noHelp : ¬AsksForHelp severalChoices := by
    rintro ⟨word, asks, given⟩
    revert word
    decide
  obtain ⟨-, -, repeated, chosen⟩ :=
    run_of_choices configured .cpp valid exist
  have text : configured.fileSystem.fileText? "c" = some dryText := by
    decide +kernel
  have whole : dryText.isUtf8 = true := by decide +kernel
  have object : Support.parseJson dryText = .ok (.object dryMembers) := by
    have parsed : JsonValue.parse? dryText = some (.object dryMembers) :=
      JsonValue.parse?_render 0 (.object dryMembers)
    simp [Support.parseJson, parseJson, parsed, whole]
  have performed :=
    chosen dryConfig noHelp (.file rfl (by decide) text object gives_dryMembers)
  exact ⟨valid, exist,
    repeated repeatedInput (fun c => ⟨given c, given' c⟩) (by decide),
    performed⟩

end

end CommandLine
end MirrorAdapter
