import MirrorAdapter.CommandLine.Run
import MirrorAdapter.Proofs.FileSystem.Routes
import MirrorAdapter.Proofs.FileSystem.Trees
import MirrorAdapter.Support.Standard

/-!
# Runs that fail

Every way for a run to fail tells the user something, in whole lines, but for
one: where the inputs are directories without a mirror file in them there is
nothing to read and nothing to report.
-/
namespace MirrorAdapter

/-! ## Whole lines -/

namespace Text

/-- One line or more, the last of which is ended. -/
def HasLines (s : Text) : Prop := ∃ front, s = front ++ Text.ofString "\n"

theorem HasLines.nonempty {s : Text} (h : HasLines s) : s ≠ [] := by
  obtain ⟨front, rfl⟩ := h
  simp [Text.ofString]

theorem HasLines.append_left {s : Text} (front : Text) (h : HasLines s) :
    HasLines (front ++ s) := by
  obtain ⟨more, rfl⟩ := h
  exact ⟨front ++ more, by rw [List.append_assoc]⟩

/-- Terminated parts can stand behind whole lines. -/
theorem HasLines.append_terminated {s : Text} (h : HasLines s)
    (parts : List Text) : HasLines (s ++ terminated "\n" parts) := by
  induction parts generalizing s with
  | nil => simpa [terminated] using h
  | cons part parts ih =>
    have split : s ++ terminated "\n" (part :: parts) =
        (s ++ part ++ Text.ofString "\n") ++ terminated "\n" parts := by
      simp [terminated]
    rw [split]
    exact ih ⟨s ++ part, rfl⟩

theorem hasLines_terminated {parts : List Text} (h : parts ≠ []) :
    HasLines (terminated "\n" parts) := by
  obtain ⟨part, rest, rfl⟩ := List.exists_cons_of_ne_nil h
  have first : HasLines (part ++ Text.ofString "\n") := ⟨part, rfl⟩
  simpa [terminated] using first.append_terminated rest

end Text

open Text (HasLines)

theorem Log.hasLines_render {log : Log} (h : log ≠ []) : HasLines log.render :=
  Text.hasLines_terminated (by simpa using h)

/-! ## Inputs that stand for nothing -/

namespace Discovery

/-- The input is a directory that has no mirror file at any depth. -/
def IsBarren (fs : FileSystem) (input : Path) : Prop :=
  ∃ route, fs.locate input = .ok route ∧ fs.get? route = some .directory ∧
    ∀ rest f, fs.get? (route ++ rest) = some (.file f) →
      Path.hasExtension mirrorExtension (rest.getLastD []) = false

theorem mirrorsBelow_eq_nil_iff {fs : FileSystem}
    {input : Path} {route : Route} :
    mirrorsBelow fs input route = [] ↔
      ∀ rest f, fs.get? (route ++ rest) = some (.file f) →
        Path.hasExtension mirrorExtension (rest.getLastD []) = false := by
  rw [mirrorsBelow, List.filterMap_eq_nil_iff]
  constructor
  · intro none_taken rest f stored
    simpa using none_taken (rest, f) (FileSystem.mem_filesBelow.mpr stored)
  · rintro other ⟨rest, f⟩ below
    simpa using other rest f (FileSystem.mem_filesBelow.mp below)

theorem expand_eq_nil_iff {fs : FileSystem} {input : Path} :
    expand fs input = some [] ↔ IsBarren fs input := by
  unfold expand IsBarren FileSystem.status
  cases located : fs.locate input with
  | error e => simp
  | ok route =>
    rcases found :
        fs.get? route with _ | _ | _ <;> simp [found, mirrorsBelow_eq_nil_iff]

/-- Nothing is found and nothing reported exactly where all inputs are
directories without mirror files. -/
theorem find_eq_nil_iff {fs : FileSystem} {inputs : List Path} :
    find fs inputs = ([], []) ↔ ∀ input ∈ inputs, IsBarren fs input := by
  rw [forall₂_congr fun input _ => expand_eq_nil_iff.symm]
  simp only [find, Prod.mk.injEq, List.append_eq_nil_iff,
    List.filterMap_eq_nil_iff, List.forall_mem_map]
  constructor
  · rintro ⟨unread, noneMissing, noneUnreadable⟩ input given
    obtain ⟨files, expanded⟩ : ∃ files, expand fs input = some files := by
      have there := noneMissing input given
      cases found : expand fs input with
      | none => simp [found] at there
      | some files => exact ⟨files, rfl⟩
    -- A path that was found is read, or reported as one that cannot be.
    refine expanded.trans
      (congrArg some (List.eq_nil_iff_forall_not_mem.mpr fun p found => ?_))
    have path :
        p ∈ Text.sortedSet
          ((inputs.map fun input => (input, expand fs input)).flatMap
            fun e => e.2.getD []) := by
      refine Text.mem_sortedSet.mpr
        (List.mem_flatMap.mpr ⟨_, List.mem_map_of_mem given, ?_⟩)
      simpa [expanded] using found
    have text := unread p path
    have readable := noneUnreadable p path
    cases read : fs.read? p <;> simp [read] at text readable
  · intro barren
    have noPaths :
        ((inputs.map fun input => (input, expand fs input)).flatMap
            fun e => e.2.getD []) =
          [] := by
      simpa using fun input given => by simp [barren input given]
    rw [noPaths]
    exact ⟨by simp [Text.sortedSet],
      fun input given => by simp [barren input given], by simp [Text.sortedSet]⟩

theorem readModule_eq_none_iff {fs : FileSystem}
    {inputs : List Path} {log : Log} :
    readModule fs inputs = (none, log) ↔ find fs inputs = ([], log) := by
  rcases whole :
      find fs inputs
        with ⟨_ | ⟨first, others⟩, reports⟩ <;> simp [readModule, whole]

end Discovery

namespace CommandLine

/-! ## Outcomes -/

/-- If the run fails, it tells the user something. -/
def Outcome.FailsAloud (o : Outcome) : Prop :=
  o.exitCode ≠ 0 → ∀ time, HasLines (o.messagesWithin time)

theorem hasLines_messagesWithin {o : Outcome} (h : HasLines o.messages)
    (time : Text) : HasLines (o.messagesWithin time) := by
  rw [Outcome.messagesWithin]
  cases o.timed
  · simpa using h
  · exact ⟨o.messages ++ "  elapsed: " ++ time, by simp⟩

theorem failsAloud_of_messages {o : Outcome} (h : HasLines o.messages) :
    o.FailsAloud :=
  fun _ => hasLines_messagesWithin h

theorem failsAloud_refuse (fs : FileSystem) (line : Text) :
    (refuse fs line).FailsAloud :=
  failsAloud_of_messages ⟨line, rfl⟩

/-- Errors make a run fail, and they are shown. -/
theorem hasLines_of_exitCodeOf {log : Log} (h : exitCodeOf log ≠ 0) :
    HasLines log.render := by
  refine Log.hasLines_render ?_
  rintro rfl
  exact h rfl

theorem failsAloud_showText (fs : FileSystem) (text : Text) (log : Log) :
    (showText fs text log).FailsAloud :=
  fun failed => hasLines_messagesWithin (hasLines_of_exitCodeOf failed)

theorem failsAloud_emit [Support] (env : Environment) (s : Settings)
    (m : Decl.Module) (log : Log) : (emit env s m log).FailsAloud := by
  unfold emit
  split
  · exact failsAloud_refuse _ _
  · dsimp only
    split
    · rename_i e _
      have first : HasLines (e.message ++ Text.ofString "\n") := ⟨_, rfl⟩
      exact failsAloud_of_messages (first.append_terminated _)
    · rename_i summary _
      -- The summary is printed whether or not there are errors.
      refine failsAloud_of_messages (Text.HasLines.append_left _ ?_)
      exact ⟨_, rfl⟩

theorem hasLines_report (e : UsageError) : HasLines e.report :=
  Text.HasLines.append_left _ (Text.hasLines_terminated (by simp))

/-! ## Runs -/

/-- The run gets as far as its inputs, and these are directories without
mirror files. -/
def HasNothingToRead [Support] (env : Environment) (words : List Text) : Prop :=
  ∃ command arguments config,
    readWords words = .ok (.run command arguments) ∧
    configuration env.fileSystem arguments = .ok config ∧
    (Settings.of config arguments).inputs ≠ [] ∧
    ∀ input ∈ (Settings.of config arguments).inputs,
      Discovery.IsBarren env.fileSystem input

theorem run_of_hasNothingToRead [Support] {env : Environment}
    {words : List Text} (h : HasNothingToRead env words) :
    run env words = { exitCode := 1, fileSystem := env.fileSystem } := by
  obtain ⟨command, arguments, config, request,
        configured, some_given, barren⟩ :=
    h
  have nothing :=
    Discovery.readModule_eq_none_iff.mpr (Discovery.find_eq_nil_iff.mpr barren)
  simp [run, request, execute, configured, perform, some_given, nothing,
    Log.render, Text.terminated]

theorem failsAloud_perform [Support] {env : Environment}
    {s : Settings} (command : Command)
    (h : s.inputs ≠ [] → ¬∀ input ∈ s.inputs,
      Discovery.IsBarren env.fileSystem input) :
    (perform env command s).FailsAloud := by
  unfold perform
  dsimp only
  split
  · exact failsAloud_refuse _ _
  · rename_i some_given
    split
    · rename_i log unread
      -- Without a module there is a report, for not all inputs stand for
      -- nothing.
      refine failsAloud_of_messages (Log.hasLines_render ?_)
      rintro rfl
      have barren :=
        Discovery.find_eq_nil_iff.mp
          (Discovery.readModule_eq_none_iff.mp unread)
      exact h (by simpa using some_given) barren
    · cases command
      · exact failsAloud_showText _ _ _
      · exact failsAloud_showText _ _ _
      · exact failsAloud_emit _ _ _ _

theorem failsAloud_execute [Support] {env : Environment}
    {command : Command} {arguments : List Argument}
    (h : ∀ config, configuration env.fileSystem arguments = .ok config →
        (Settings.of config arguments).inputs ≠ [] →
        ¬∀ input ∈ (Settings.of config arguments).inputs,
      Discovery.IsBarren env.fileSystem input) :
    (execute env command arguments).FailsAloud := by
  unfold execute
  split
  case h_1 => exact failsAloud_refuse _ _
  case h_2 config configured =>
    exact failsAloud_perform command (h config configured)

/-- A run fails without a line for the user exactly where all its inputs are
directories without mirror files. -/
theorem silent_failure_iff [Support] (env : Environment)
    (words : List Text) (time : Text) :
    (run env words).exitCode ≠ 0 ∧
    ¬HasLines ((run env words).messagesWithin time) ↔
      HasNothingToRead env words := by
  constructor
  · rintro ⟨failed, silent⟩
    by_contra something
    refine silent ((?_ : (run env words).FailsAloud) failed time)
    unfold run
    split
    · exact failsAloud_of_messages (hasLines_report _)
    · exact fun wrong => absurd rfl wrong
    · rename_i command arguments request
      exact failsAloud_execute fun config configured some_given barren =>
          something ⟨command, arguments, config, request, configured,
            some_given, barren⟩
  · intro nothing
    rw [run_of_hasNothingToRead nothing]
    exact ⟨show (1 : UInt32) ≠ 0 by decide, fun lines => lines.nonempty rfl⟩

/-- A directory with nothing in it. -/
def emptyInput : Environment :=
  { fileSystem := { entries := [([Text.ofString "empty"], .directory)] } }

section
open Support.Standard

theorem emptyInput_silent :
    (run emptyInput ["ast", "--input", "empty"]).exitCode = 1 ∧
    ∀ time, ¬HasLines
        ((run emptyInput ["ast", "--input", "empty"]).messagesWithin time) := by
  have said : (run emptyInput ["ast", "--input", "empty"]).exitCode = 1 ∧
      (run emptyInput ["ast", "--input", "empty"]).messages = [] ∧
      (run emptyInput ["ast", "--input", "empty"]).timed = false := by
    decide +kernel
  refine ⟨said.1, fun time lines => lines.nonempty ?_⟩
  simp [Outcome.messagesWithin, said.2]

end

end CommandLine
end MirrorAdapter
