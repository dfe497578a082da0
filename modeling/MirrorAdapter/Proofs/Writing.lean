import MirrorAdapter.Output
import MirrorAdapter.Proofs.FileSystem.Changes

/-!
# Written outputs

Writing an output puts its file at the end of its path, and else makes
directories only. So after a run over outputs each of them is where it was
put, provided that no later one has its route or makes a file of a directory
on its way; and files at other routes are as before.
-/
namespace MirrorAdapter

open FileSystem (Grows Puts Spares routeOf)

namespace Output

variable {policy : Policy} {fs after : FileSystem} {o : Output}

/-! ## One output -/

theorem grows_makeParent (fs : FileSystem) (p : Path) :
    Grows fs (makeParent fs p).1 := by
  unfold makeParent
  dsimp only
  split
  · exact .refl fs
  · exact FileSystem.grows_makeDirectories fs _

/-- Making room removes nothing but what is at the end of the path. -/
theorem frame_clear {cleared : FileSystem} {p : Path}
    (h : clear policy fs p = .ok cleared) :
    cleared.working = fs.working ∧ cleared.faults = fs.faults ∧
    ∀ r, r ≠ routeOf fs.working p → cleared.get? r = fs.get? r := by
  unfold clear at h
  split at h
  · cases h
    exact ⟨rfl, rfl, fun _ _ => rfl⟩
  · cases h
  · split at h
    · cases h
    · split at h
      · cases h
      · rename_i removed found
        cases h
        rw [FileSystem.eq_erase_of_remove? found]
        exact ⟨rfl, rfl, fun r other => FileSystem.get?_erase_of_ne fs other⟩

/-- Room for a file where nothing may be overwritten is found, not made. -/
theorem eq_of_clear (keep : policy.noOverwrite = true) {cleared : FileSystem}
    {p : Path} (h : clear policy fs p = .ok cleared) : cleared = fs := by
  unfold clear at h
  split at h
  · cases h
    rfl
  · cases h
  · rw [if_pos keep] at h
    cases h

theorem ne_ofFault_of_clear {p q : Path} {e : Error}
    (h : clear policy fs p = .error e) (fault : Fault) :
    e ≠ .ofFault q fault := by
  unfold clear at h
  repeat' split at h
  all_goals cases h
  all_goals cases fault <;> nofun

/-- How the device fails the file of an output, if it does. -/
def fault (fs : FileSystem) (o : Output) : Option Fault :=
  fs.faults.lookup (routeOf fs.working o.path)

/-- A file is created as far as the device lets it, or cannot be opened. -/
theorem create_cases (policy : Policy) (fs : FileSystem) (o : Output) :
    create policy fs o = (fs, some (.create o.path)) ∨ ∃ after,
      create policy fs o = (after, (o.fault fs).map (Error.ofFault o.path)) ∧
      fs.get? (routeOf fs.working o.path) = none ∧
      Puts fs after o.path (Fault.remnant (o.stored policy) (o.fault fs)) := by
  unfold create
  split
  · exact .inl rfl
  · rename_i after fault created
    obtain ⟨route, located, missing, rfl, -⟩ := FileSystem.of_create? created
    obtain ⟨-, -, rfl⟩ := (FileSystem.locate_eq_ok_iff fs).mp located
    exact .inr ⟨after, rfl, missing, FileSystem.puts_create? created⟩

/-- What a write can do. It fails before a file is open, which makes
directories at most where nothing may be overwritten; or it puts the file
there as far as the device lets it, and fails if the device does. -/
theorem write_cases (wet : policy.dryRun = false)
    (fs : FileSystem) (o : Output) :
    (∃ after e, write policy fs o = (after, some e) ∧
        (∀ fault, e ≠ .ofFault o.path fault) ∧ after.working = fs.working ∧
        (policy.noOverwrite = true → Grows fs after)) ∨
    ∃ after,
      write policy fs o = (after, (o.fault fs).map (Error.ofFault o.path)) ∧
      Puts fs after o.path (Fault.remnant (o.stored policy) (o.fault fs)) ∧
      (policy.noOverwrite = true →
        fs.get? (routeOf fs.working o.path) = none) := by
  have grows := grows_makeParent fs o.path
  unfold write
  rw [if_neg (by simp [wet])]
  cases parent : makeParent fs o.path with
  | mk made there =>
    rw [parent] at grows
    dsimp only at grows ⊢
    cases there with
    | false =>
      have other :
          ∀ fault, Error.makeDirectory (Path.parent o.path) ≠
              .ofFault o.path fault := by
        intro fault
        cases fault <;> nofun
      exact .inl ⟨made, _, rfl, other, grows.working, fun _ => grows⟩
    | true =>
      dsimp only
      cases room : clear policy made o.path with
      | error e =>
        exact .inl ⟨made, e, rfl, ne_ofFault_of_clear room, grows.working,
          fun _ => grows⟩
      | ok cleared =>
        obtain ⟨working, faults, frame⟩ := frame_clear room
        have same : o.fault cleared = o.fault fs := by
          rw [fault, fault, faults, grows.faults, working, grows.working]
        rcases create_cases policy cleared o
            with failed | ⟨after, created, vacant, put⟩
        · have other :
              ∀ fault, Error.create o.path ≠ .ofFault o.path fault := by
            intro fault
            cases fault <;> nofun
          refine .inl ⟨cleared, _, failed, other,
            working.trans grows.working, fun keep => ?_⟩
          rwa [eq_of_clear keep room]
        · rw [same] at created put
          refine .inr ⟨after, created, ?_, fun keep => ?_⟩
          · rw [grows.working] at working frame
            refine put.after working (faults.trans grows.faults)
              fun r other => ?_
            rw [frame r other]
            exact grows.frame r
          · rw [eq_of_clear keep room, grows.working] at vacant
            rcases grows.frame (routeOf fs.working o.path)
                with same | ⟨before, -⟩
            · rw [← same, vacant]
            · exact before

/-- The device does not fail a write that succeeds. -/
theorem fault_of_write (wet : policy.dryRun = false)
    (h : write policy fs o = (after, none)) : o.fault fs = none := by
  rcases write_cases wet fs o with ⟨_, e, failed, -⟩ | ⟨_, written, -⟩
  · rw [failed] at h
    cases h
  · rw [written, Prod.mk.injEq, Option.map_eq_none_iff] at h
    exact h.2

/-- A successful write puts the file there. -/
theorem puts_write (wet : policy.dryRun = false)
    (h : write policy fs o = (after, none)) :
    Puts fs after o.path (o.stored policy) := by
  rcases write_cases wet fs o with ⟨_, e, failed, -⟩ | ⟨_, written, put, -⟩
  · rw [failed] at h
    cases h
  · obtain rfl := congrArg Prod.fst (written.symm.trans h)
    rwa [fault_of_write wet h] at put

/-- Where there is a file at the parent of a path, nothing can be written. -/
theorem write_of_file_parent (wet : policy.dryRun = false)
    {f : StoredFile} (parent : Path.parent o.path ≠ [])
    (there : fs.status (Path.parent o.path) = .ok (.file f)) :
    (write policy fs o).2 ≠ none := by
  have stuck : makeParent fs o.path = (fs, false) := by
    unfold makeParent
    dsimp only
    rw [if_neg (by simpa using parent), FileSystem.makeDirectories, there]
  unfold write
  rw [if_neg (by simp [wet]), stuck]
  simp

/-! ## Outputs in order -/

/-- All outputs were written. -/
def Succeeds (policy : Policy) (fs : FileSystem) (outputs : List Output) :
    Prop :=
  (writeAll policy fs outputs).error = none

theorem succeeds_cons {outputs : List Output}
    (h : Succeeds policy fs (o :: outputs)) :
    ∃ after,
      write policy fs o = (after, none) ∧ Succeeds policy after outputs ∧
      (writeAll policy fs (o :: outputs)).fileSystem =
        (writeAll policy after outputs).fileSystem ∧
      (writeAll policy fs (o :: outputs)).recorded =
        o.resolved fs :: (writeAll policy after outputs).recorded := by
  unfold Succeeds at h ⊢
  rw [writeAll] at h ⊢
  split at h
  · cases h
  · rename_i after written
    rw [written]
    exact ⟨after, rfl, h, rfl, rfl⟩

theorem length_recorded {outputs : List Output}
    (h : Succeeds policy fs outputs) :
    (writeAll policy fs outputs).recorded.length = outputs.length := by
  induction outputs generalizing fs with
  | nil => rfl
  | cons o outputs ih =>
    obtain ⟨after, -, later, -, recorded⟩ := succeeds_cons h
    rw [recorded, List.length_cons, List.length_cons, ih later]

section
variable (wet : policy.dryRun = false)
include wet

theorem working_writeAll {outputs : List Output}
    (h : Succeeds policy fs outputs) :
    (writeAll policy fs outputs).fileSystem.working = fs.working := by
  induction outputs generalizing fs with
  | nil => rfl
  | cons o outputs ih =>
    obtain ⟨after, written, later, final, -⟩ := succeeds_cons h
    rw [final, ih later, (puts_write wet written).working]

/-- A file stays where no output gets in its way. -/
theorem status_writeAll {outputs : List Output}
    (h : Succeeds policy fs outputs) {p : Path} {f : StoredFile}
    (spares : ∀ o ∈ outputs, Spares fs.working p o.path)
    (there : fs.status p = .ok (.file f)) :
    (writeAll policy fs outputs).fileSystem.status p = .ok (.file f) := by
  induction outputs generalizing fs with
  | nil => exact there
  | cons o outputs ih =>
    obtain ⟨after, written, later, final, -⟩ := succeeds_cons h
    have put := puts_write wet written
    rw [List.forall_mem_cons] at spares
    rw [final]
    exact ih later (by rw [put.working]; exact spares.2)
      (put.keeps spares.1 there)

/-- Each output is where it was put if no later one gets in its way. -/
theorem status_of_mem {outputs : List Output} (h : Succeeds policy fs outputs)
    (spares : outputs.Pairwise fun o o' => Spares fs.working o.path o'.path)
    (mem : o ∈ outputs) :
    (writeAll policy fs outputs).fileSystem.status o.path =
      .ok (.file (o.stored policy)) := by
  induction outputs generalizing fs with
  | nil => cases mem
  | cons first outputs ih =>
    obtain ⟨after, written, later, final, -⟩ := succeeds_cons h
    have put := puts_write wet written
    obtain ⟨here, others⟩ := List.pairwise_cons.mp spares
    rw [final]
    rcases List.mem_cons.mp mem with rfl | behind
    · exact status_writeAll wet later (by rw [put.working]; exact here)
        put.status
    · exact ih later (by rw [put.working]; exact others) behind

/-- Files at routes of no output are as before. -/
theorem file_iff_writeAll {outputs : List Output}
    (h : Succeeds policy fs outputs) {r : Route}
    (other : ∀ o ∈ outputs, r ≠ routeOf fs.working o.path) (f : StoredFile) :
    (writeAll policy fs outputs).fileSystem.get? r = some (.file f) ↔
      fs.get? r = some (.file f) := by
  induction outputs generalizing fs with
  | nil => rfl
  | cons o outputs ih =>
    obtain ⟨after, written, later, final, -⟩ := succeeds_cons h
    have put := puts_write wet written
    rw [List.forall_mem_cons] at other
    rw [final, ih later (by rw [put.working]; exact other.2),
      put.file_iff other.1]

end

end Output
end MirrorAdapter
