import MirrorAdapter.Proofs.Discovery

/-!
# What inputs stand for

An input that is a file stands for itself, and one that is a directory for the
mirror files at any depth below it. What is found are these files, each of
them once for each normal form of a path to it, in the order of these paths:
neither the order of the inputs matters nor how often they are given. Of an
input without NUL bytes only paths that are too long to be followed are lost.
-/
namespace MirrorAdapter

/-- A file name ends with an extension if that stands behind something
else. -/
theorem Path.hasExtension_iff {extension name : Text} :
    hasExtension extension name = true ↔
      ∃ stem, stem ≠ [] ∧ name = stem ++ extension := by
  rw [hasExtension, Bool.and_eq_true, List.isSuffixOf_iff_suffix,
    decide_eq_true_iff]
  constructor
  · rintro ⟨⟨stem, rfl⟩, longer⟩
    refine ⟨stem, ?_, rfl⟩
    rintro rfl
    simp at longer
  · rintro ⟨stem, something, rfl⟩
    have length := List.length_pos_iff.mpr something
    refine ⟨List.suffix_append _ _, ?_⟩
    rw [List.length_append]
    omega

namespace Discovery

open FileSystem (longestPath)

/-- The path is the normal form of one by which the input stands for the file:
its own path, or that of a mirror file at any depth below it. -/
inductive StandsFor (fs : FileSystem) (input : Path) :
    Path → StoredFile → Prop where
  | file {f : StoredFile} :
      fs.status input = .ok (.file f) →
      StandsFor fs input (Path.normalize input) f
  | below {f : StoredFile} {route scope : Route} {stem : Text} :
      fs.locate input = .ok route →
      fs.get? route = some .directory → stem ≠ [] →
      fs.get? (route ++ (scope ++ [stem ++ mirrorExtension])) = some (.file f) →
      StandsFor fs input (Path.normalizeFrom input
            (Text.join "/" (scope ++ [stem ++ mirrorExtension]))) f

/-- What is found by inputs, and what is reported on the way. -/
structure Answers (fs : FileSystem) (inputs : List Path)
    (found : List (Path × Text)) (log : Log) : Prop where
  increasing : (found.map Prod.fst).Pairwise (· < ·)
  /-- The files found are those that inputs stand for and that can be read. -/
  listed : ∀ p text, (p, text) ∈ found ↔
      (∃ input ∈ inputs, ∃ f, StandsFor fs input p f) ∧ fs.read? p = some text
  /-- By a path that is short enough, it is the file that the input stands for
  which is read. -/
  content :
    ∀ input ∈ inputs, (0 : Byte) ∉ input → ∀ p f, StandsFor fs input p f →
        fs.read? p = if p.length ≤ longestPath then some f.content else none
  /-- The path of an input that is a file is short enough. -/
  short : ∀ input ∈ inputs,
      (0 : Byte) ∉ input → ∀ f, fs.status input = .ok (.file f) →
        (Path.normalize input).length ≤ longestPath
  /-- Every input that leads nowhere is reported, and then every path that
  cannot be read. -/
  reported : ∃ unread : List Path, unread.Pairwise (· < ·) ∧
      (∀ p, p ∈ unread ↔
          (∃ input ∈ inputs, ∃ f, StandsFor fs input p f) ∧ fs.read? p = none) ∧
      log =
        (inputs.filter fun input => !(fs.status input).isOk).map missingInput ++
          unread.map unreadableFile

variable {fs : FileSystem} {input p : Path} {f : StoredFile}

theorem mem_mirrorsBelow {route : Route} :
    p ∈ mirrorsBelow fs input route ↔ ∃ scope stem f, stem ≠ [] ∧
        fs.get? (route ++ (scope ++ [stem ++ mirrorExtension])) =
          some (.file f) ∧ p = Path.normalizeFrom input
            (Text.join "/" (scope ++ [stem ++ mirrorExtension])) := by
  rw [mirrorsBelow, List.mem_filterMap]
  constructor
  · rintro ⟨⟨rest, f⟩, below, kept⟩
    dsimp only at kept
    split at kept
    · rename_i extension
      obtain ⟨stem, something, named⟩ := Path.hasExtension_iff.mp extension
      rcases List.eq_nil_or_concat rest with rfl | ⟨scope, name, rfl⟩
      · rw [List.getLastD_nil] at named
        simp [something] at named
      · rw [List.concat_eq_append, List.getLastD_concat] at named
        subst named
        rw [List.concat_eq_append] at below kept
        exact ⟨scope, stem, f, something,
          FileSystem.mem_filesBelow.mp below, (Option.some.inj kept).symm⟩
    · cases kept
  · rintro ⟨scope, stem, f, something, stored, rfl⟩
    have extension :
        Path.hasExtension mirrorExtension (stem ++ mirrorExtension) = true :=
      Path.hasExtension_iff.mpr ⟨stem, something, rfl⟩
    refine ⟨_, FileSystem.mem_filesBelow.mpr stored, ?_⟩
    dsimp only
    rw [List.getLastD_concat, if_pos extension]

/-- An input is expanded to the paths of the files that it stands for. -/
theorem mem_expand :
    p ∈ (expand fs input).getD [] ↔ ∃ f, StandsFor fs input p f := by
  constructor
  · intro listed
    unfold expand at listed
    split at listed
    · rename_i route located directory
      obtain ⟨scope, stem, f, something, stored, rfl⟩ :=
        mem_mirrorsBelow.mp listed
      obtain ⟨_, same, isDirectory⟩ :=
        (FileSystem.status_eq_ok_iff fs).mp directory
      rw [located] at same
      obtain rfl := Except.ok.inj same
      exact ⟨f, .below located isDirectory something stored⟩
    · rename_i f _ stored
      rw [List.mem_singleton.mp listed]
      exact ⟨f, .file stored⟩
    · cases listed
  · rintro ⟨f, stored | ⟨located, directory, something, stored⟩⟩
    · obtain ⟨route, located, -⟩ := (FileSystem.status_eq_ok_iff fs).mp stored
      simp [expand, located, stored]
    · have status :=
        (FileSystem.status_eq_ok_iff fs).mpr ⟨_, located, directory⟩
      simp only [expand, located, status, Option.getD_some]
      exact mem_mirrorsBelow.mpr ⟨_, _, _, something, stored, rfl⟩

theorem isNone_expand : (expand fs input).isNone = !(fs.status input).isOk := by
  unfold expand FileSystem.status
  cases located : fs.locate input with
  | error e => rfl
  | ok route =>
    dsimp only
    rcases fs.get? route with _ | _ | _ <;> rfl

/-! ## Files that are found -/

/-- Without a NUL byte in the input, a path that it stands for leads to the
file, unless it is too long. -/
theorem read?_of_standsFor (sound : fs.IsReadable)
    (plain : (0 : Byte) ∉ input) (stands : StandsFor fs input p f) :
    fs.read? p = if p.length ≤ longestPath then some f.content else none := by
  have read {route : Route} (located : fs.locate p = .ok route)
      (stored : fs.get? route = some (.file f)) :
      fs.read? p = some f.content := by
    have status :=
      (FileSystem.status_eq_ok_iff fs).mpr ⟨route, located, stored⟩
    simp [FileSystem.read?, FileSystem.fileText?, status,
      sound.readable route f stored]
  cases stands with
  | file stored =>
    obtain ⟨route, located, there⟩ :=
      (FileSystem.status_eq_ok_iff fs).mp stored
    have short :=
      Nat.le_trans (Path.length_normalize_le input)
        (FileSystem.length_le_of_locate plain located)
    rw [if_pos short]
    exact read (FileSystem.locate_normalize sound.tree plain located) there
  | @below _ route scope stem located directory something stored =>
    have storable :
        ∀ name ∈ scope ++ [stem ++ mirrorExtension],
          FileSystem.IsStorable name := by
      intro name inside
      have there :
          fs.get? (route ++ (scope ++ [stem ++ mirrorExtension])) ≠ none := by
        simp [stored]
      exact sound.storable_of_get? there name (List.mem_append_right _ inside)
    have further :=
      FileSystem.locate_normalizeFrom sound.tree plain located
        (by simp) storable (by simp [stored])
    split at further
    · rename_i short
      rw [if_pos short]
      exact read further stored
    · rename_i long
      rw [if_neg long]
      simp [FileSystem.read?, FileSystem.fileText?, FileSystem.status, further]

/-- The paths of all files that inputs stand for. -/
def listing (fs : FileSystem) (inputs : List Path) : List Path :=
  Text.sortedSet (inputs.flatMap fun input => (expand fs input).getD [])

theorem mem_listing {inputs : List Path} :
    p ∈ listing fs inputs ↔ ∃ input ∈ inputs, ∃ f, StandsFor fs input p f := by
  simp [listing, Text.mem_sortedSet, mem_expand]

theorem filterMap_ite {α β : Type} (kept : α → Bool) (g : α → β) (xs : List α) :
    (xs.filterMap fun x => if kept x then some (g x) else none) =
      (xs.filter kept).map g := by
  induction xs with
  | nil => rfl
  | cons x xs ih => cases here : kept x <;> simp [here, ih]

/-- Each path is read, and what cannot be read is reported. -/
theorem find_eq (fs : FileSystem) (inputs : List Path) :
    find fs inputs =
      ((listing fs inputs).filterMap
          fun p => (fs.read? p).map fun text => (p, text),
        (inputs.filter fun input => !(fs.status input).isOk).map missingInput ++
        ((listing fs inputs).filter fun p => (fs.read? p).isNone).map
          unreadableFile) := by
  unfold find listing
  dsimp only
  rw [List.filterMap_map, List.flatMap_map]
  simp only [← isNone_expand, ← filterMap_ite]
  rfl

theorem answers_find (sound : fs.IsReadable) (inputs : List Path) :
    Answers fs inputs (find fs inputs).1 (find fs inputs).2 where
  increasing := by
    have kept :=
      (Text.pairwise_sortedSet
          (inputs.flatMap fun i => (expand fs i).getD [])).filter
      fun p => (fs.read? p).isSome
    rwa [← foundPaths_eq] at kept
  listed p text := by
    rw [find_eq, List.mem_filterMap, ← mem_listing]
    constructor
    · rintro ⟨q, listed, read⟩
      obtain ⟨found, read, same⟩ := Option.map_eq_some_iff.mp read
      cases same
      exact ⟨listed, read⟩
    · rintro ⟨listed, read⟩
      exact ⟨p, listed, by rw [read]; rfl⟩
  content input _ plain p f stands := read?_of_standsFor sound plain stands
  short input _ plain f stored := by
    obtain ⟨route, located, -⟩ := (FileSystem.status_eq_ok_iff fs).mp stored
    exact Nat.le_trans (Path.length_normalize_le input)
      (FileSystem.length_le_of_locate plain located)
  reported := by
    refine ⟨_, (Text.pairwise_sortedSet _).filter _, fun p => ?_,
      by rw [find_eq]; rfl⟩
    rw [List.mem_filter, Option.isNone_iff_eq_none, ← mem_listing]
    rfl

/-- The paths listed are settled by what the inputs stand for. -/
theorem listing_congr {inputs inputs' : List Path}
    (same : ∀ p, (∃ input ∈ inputs, ∃ f, StandsFor fs input p f) ↔
        ∃ input ∈ inputs', ∃ f, StandsFor fs input p f) :
    listing fs inputs = listing fs inputs' := by
  apply (Text.pairwise_sortedSet _).eq_of_mem_iff (Text.pairwise_sortedSet _)
  intro p
  exact mem_listing.trans ((same p).trans mem_listing.symm)

theorem find_congr {inputs inputs' : List Path}
    (same : ∀ p, (∃ input ∈ inputs, ∃ f, StandsFor fs input p f) ↔
        ∃ input ∈ inputs', ∃ f, StandsFor fs input p f) :
    (find fs inputs).1 = (find fs inputs').1 := by
  rw [find_eq, find_eq, listing_congr same]

/-- What leads nowhere stands for nothing. -/
theorem isOk_of_standsFor (stands : StandsFor fs input p f) :
    (fs.status input).isOk = true := by
  cases stands with
  | file stored => rw [stored]; rfl
  | below located directory =>
    rw [(FileSystem.status_eq_ok_iff fs).mpr ⟨_, located, directory⟩]
    rfl

/-- In a file system of readable files the files found are those that inputs
stand for, in the order of their paths, and each input that leads nowhere is
reported; without NUL bytes in the inputs nothing is lost but paths that are
too long. Neither the order of the inputs, nor repeated inputs, nor those that
lead nowhere make a difference to what is found. -/
theorem found_of_inputs (sound : fs.IsReadable) (inputs : List Path) :
    Answers fs inputs (find fs inputs).1 (find fs inputs).2 ∧
    (∀ inputs' : List Path, (∀ input, input ∈ inputs' ↔ input ∈ inputs) →
        (find fs inputs').1 = (find fs inputs).1) ∧
    (find fs (inputs.filter fun input => (fs.status input).isOk)).1 =
      (find fs inputs).1 := by
  refine ⟨answers_find sound inputs, fun inputs' same => ?_, ?_⟩
  · apply find_congr
    intro p
    simp only [same]
  · apply find_congr
    intro p
    simp only [List.mem_filter]
    constructor
    · rintro ⟨input, ⟨given, -⟩, stands⟩
      exact ⟨input, given, stands⟩
    · rintro ⟨input, given, f, stands⟩
      exact ⟨input, ⟨given, isOk_of_standsFor stands⟩, f, stands⟩

/-- Mirror files at two depths, a file that is none, and one that has only the
extension for a name. -/
def nestedFiles : FileSystem where
  working := ["w"]
  entries :=
    [(["w"], .directory), (["w", "a.txt"], .file ⟨0o644, [1]⟩),
      (["w", "d"], .directory), (["w", "d", ".mirror"], .file ⟨0o644, []⟩),
      (["w", "d", "y.mirror"], .file ⟨0o400, [2]⟩),
      (["w", "d", "e"], .directory),
      (["w", "d", "e", "x.mirror"], .file ⟨0o444, [3]⟩)]

/-- Two directories by which one file is found, a file, and a path that leads
nowhere. -/
theorem found_of_inputs_nestedFiles :
    let inputs : List Path :=
      ["d/e/", "./d/../a.txt", "none", "d", "a.txt", "/w/d/e/.."]
    let found : List (Path × Text) :=
      [("/w/d/e/x.mirror", [3]), ("/w/d/y.mirror", [2]), ("a.txt", [1]),
        ("d/e/x.mirror", [3]), ("d/y.mirror", [2])]
    nestedFiles.IsReadable ∧
    Answers nestedFiles inputs found [missingInput "none"] ∧
    (find nestedFiles inputs.reverse).1 = found := by
  intro inputs found
  have sound : nestedFiles.IsReadable :=
    FileSystem.isReadable_of_entries (by decide +kernel) (by decide +kernel)
      (by simp [nestedFiles, FileMode.isReadable])
  have whole : find nestedFiles inputs = (found, [missingInput "none"]) := by
    decide +kernel
  obtain ⟨answers, alike, -⟩ := found_of_inputs sound inputs
  have turned := alike inputs.reverse fun input => List.mem_reverse
  rw [whole] at answers turned
  exact ⟨sound, answers, turned⟩

/-- The working directory, by a path that climbs far beyond the root. -/
def distantInput : Path :=
  (List.replicate 1362 (Text.ofString "../")).flatten ++ Text.ofString "w"

/-- The path of a file with more text behind a NUL byte. -/
def splitInput : Path :=
  Text.ofString "a.mirror" ++ (0 : Byte) :: Text.ofString "/../b"

/-- A mirror file below a directory is not found if its path is too long, nor
is a file whose path goes on behind a NUL byte: the normal form leads
elsewhere. -/
theorem distantInput_not_found :
    oneFile.IsReadable ∧
    (oneFile.status distantInput = .ok .directory ∧
      (∃ p, p.length = 4096 ∧ StandsFor oneFile distantInput p ⟨0o644, []⟩) ∧
      foundPaths oneFile [distantInput] = []) ∧
    StandsFor oneFile splitInput "b" ⟨0o644, []⟩ ∧
    foundPaths oneFile [splitInput] = [] := by
  have sound : oneFile.IsReadable :=
    FileSystem.isReadable_of_entries (by decide +kernel) (by decide +kernel)
      (by simp [oneFile, FileMode.isReadable])
  have located : oneFile.locate distantInput = .ok ["w"] := by decide +kernel
  have stored :
      oneFile.get? ([Text.ofString "w"] ++
        ([] ++ [Text.ofString "a" ++ mirrorExtension])) =
        some (.file ⟨0o644, []⟩) := by
    decide
  have split : oneFile.status splitInput = .ok (.file ⟨0o644, []⟩) := by
    decide +kernel
  have normal : Path.normalize splitInput = "b" := by decide +kernel
  have directory : oneFile.get? [Text.ofString "w"] = some .directory := by
    decide
  have status :=
    (FileSystem.status_eq_ok_iff oneFile).mpr ⟨_, located, directory⟩
  have stands := StandsFor.below located directory (by decide) stored
  refine ⟨sound, ⟨status, ⟨_, ?_, stands⟩, ?_⟩, normal ▸ .file split,
    by decide +kernel⟩
  · decide +kernel
  · decide +kernel

end Discovery
end MirrorAdapter
