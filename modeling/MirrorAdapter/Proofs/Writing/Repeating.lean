import MirrorAdapter.Proofs.FileSystem.Parents
import MirrorAdapter.Proofs.Writing.Runs

/-!
# Runs that are repeated

A second run over the same outputs finds the files of the first one and writes
them anew, with the same contents in the same order. It can do so, and leaves
everything as it was, exactly when each output is where it was put, in a
directory: when no output has made a file of a directory on the way of another
one, or of its own.
-/
namespace MirrorAdapter

open FileSystem (Advances Puts Resembles routeOf)

namespace Output

variable {policy : Policy} {fs other after last : FileSystem} {o : Output}
    {outputs : List Output}

/-- The output is a file where its path leads, and the directory that its path
names is one. -/
structure Placed (fs : FileSystem) (o : Output) : Prop where
  directory :
    Path.parent o.path = [] ∨ fs.status (Path.parent o.path) = .ok .directory
  file : ∃ f, fs.status o.path = .ok (.file f)

theorem Placed.get? (h : Placed fs o) :
    fs.locate o.path = .ok (routeOf fs.working o.path) ∧
    ∃ f, fs.get? (routeOf fs.working o.path) = some (.file f) := by
  obtain ⟨f, there⟩ := h.file
  obtain ⟨route, located, file⟩ := (FileSystem.status_eq_ok_iff fs).mp there
  obtain ⟨-, -, rfl⟩ := (FileSystem.locate_eq_ok_iff fs).mp located
  exact ⟨located, f, file⟩

/-- No NUL byte ends the path in its directory, which would be the file
itself. -/
theorem Placed.nul_not_mem (h : Placed fs o) :
    (0 : Byte) ∉ Path.parent o.path := by
  intro nul
  have directory := h.directory.resolve_left (List.ne_nil_of_mem nul)
  obtain ⟨f, file⟩ := h.file
  rw [FileSystem.status_parent_of_nul fs nul, file] at directory
  cases directory

/-- Contents of files do not matter. -/
theorem Placed.congr (h : Placed fs o) (like : Resembles fs other) :
    Placed other o := by
  obtain ⟨located, f, there⟩ := h.get?
  obtain ⟨g, file⟩ := like.file there
  refine ⟨h.directory.imp_right fun directory => ?_, g, ?_⟩
  · obtain ⟨route, located, directory⟩ :=
      (FileSystem.status_eq_ok_iff fs).mp directory
    exact (FileSystem.status_eq_ok_iff other).mpr
      ⟨route, like.locate located, like.directory directory⟩
  · exact (FileSystem.status_eq_ok_iff other).mpr ⟨_, like.locate located, file⟩

/-! ## A write that is repeated -/

section
variable (wet : policy.dryRun = false)
include wet

/-- An output that is where it belongs can be written again if the device does
not fail it, and nothing else changes. -/
theorem write_of_placed (replacing : policy.noOverwrite = false)
    (h : Placed fs o) (faultless : o.fault fs = none) :
    ∃ after, write policy fs o = (after, none) ∧ after.working = fs.working ∧
      after.faults = fs.faults ∧ ∀ r, after.get? r =
          if r = routeOf fs.working o.path then some (.file (o.stored policy))
          else fs.get? r := by
  obtain ⟨located, f, there⟩ := h.get?
  have below : routeOf fs.working o.path ≠ [] := by
    intro root
    rw [root] at there
    cases there
  have parent : makeParent fs o.path = (fs, true) := by
    unfold makeParent
    rcases h.directory with empty | directory
    · simp [empty]
    · simp [FileSystem.makeDirectories, directory]
  have cleared :
      clear policy fs o.path = .ok (fs.erase (routeOf fs.working o.path)) := by
    simp [clear, (FileSystem.status_eq_ok_iff fs).mpr ⟨_, located, there⟩,
      replacing, FileSystem.remove?, located, there]
  have read := FileSystem.get?_erase fs below
  have room :
      (fs.erase (routeOf fs.working o.path)).locate o.path =
        .ok (routeOf fs.working o.path) := by
    refine FileSystem.locate_of_passedBy (FileSystem.working_erase ..)
      (fun r _ directory => ?_) located
    have apart : r ≠ routeOf fs.working o.path := by
      rintro rfl
      rw [there] at directory
      cases directory
    rw [read, if_neg apart, directory]
  refine ⟨(fs.erase (routeOf fs.working o.path)).insert
      (routeOf fs.working o.path) (.file (o.stored policy)),
    ?_, rfl, rfl, fun r => ?_⟩
  · rw [fault] at faultless
    rw [write, if_neg (by simp [wet]), parent]
    simp [cleared, create, FileSystem.create?, room, read, faultless,
      Fault.remnant]
  · rw [FileSystem.get?_insert _ below, read]
    split <;> rfl

/-- What can be written again is where it belongs, if it was there and nothing
on its way has been lost. -/
theorem placed_of_write {before behind middle first : FileSystem}
    (earlier : write policy before o = (behind, none))
    (since : Advances behind fs) (until_ : Advances fs middle)
    (again : write policy middle o = (first, none)) : Placed fs o := by
  have put := puts_write wet earlier
  have put' := puts_write wet again
  have later : ∃ route, first.locate o.path = .ok route := ⟨_, put'.located⟩
  have located := since.locate (until_.trans put'.advances) put.located later
  have located' := (since.trans until_).locate put'.advances put.located later
  obtain ⟨f, file⟩ := since.file put.put
  obtain ⟨g, file'⟩ := until_.file file
  refine ⟨?_, f, (FileSystem.status_eq_ok_iff fs).mpr ⟨_, located, file⟩⟩
  by_cases inside : Path.parent o.path = []
  · exact .inl inside
  by_cases nul : (0 : Byte) ∈ Path.parent o.path
  · -- The directory would be the file itself.
    have there : middle.status (Path.parent o.path) = .ok (.file g) := by
      rw [FileSystem.status_parent_of_nul middle nul]
      exact (FileSystem.status_eq_ok_iff middle).mpr ⟨_, located', file'⟩
    exact absurd (congrArg Prod.snd again)
      (write_of_file_parent wet inside there)
  · exact .inr (FileSystem.status_parent nul inside located)

/-! ## A run that is repeated -/

/-- Where all outputs can be written again, each is where it belongs. -/
theorem Writes.placed_of_again (first : Writes policy fs outputs after)
    (second : Writes policy after outputs last) (mem : o ∈ outputs) :
    Placed after o := by
  obtain ⟨before, behind, -, written, since⟩ := first.exists_write wet mem
  obtain ⟨middle, next, until_, again, -⟩ := second.exists_write wet mem
  exact placed_of_write wet written since until_ again

/-- A run that has come to where another run has been goes on like that one.
The two may differ in contents of files that are still to be written. -/
theorem Writes.again (replacing : policy.noOverwrite = false)
    (run : Writes policy fs outputs after)
    (placed : ∀ out ∈ outputs, Placed after out) (like : Resembles after other)
    (agree : ∀ r, (∀ out ∈ outputs, r ≠ routeOf after.working out.path) →
        other.get? r = after.get? r) :
    ∃ last, Writes policy other outputs last ∧
      last.working = after.working ∧ ∀ r, last.get? r = after.get? r := by
  induction run generalizing other with
  | nil fs =>
    exact ⟨other, .nil other, like.working, fun r => agree r (by simp)⟩
  | @cons fs middle after o rest written later ih =>
    have put := puts_write wet written
    have stays : after.working = middle.working :=
      (later.advances wet).working
    rw [List.forall_mem_cons] at placed
    have faultless : o.fault other = none := by
      rw [fault, like.working, like.faults, stays, later.faults wet,
        put.working, put.faults]
      exact fault_of_write wet written
    obtain ⟨next, again, working, faults, read⟩ :=
      write_of_placed wet replacing (placed.1.congr like) faultless
    rw [like.working] at working read
    rw [like.faults] at faults
    obtain ⟨-, f, there⟩ := placed.1.get?
    have like' : Resembles after next := by
      refine ⟨working, faults, fun r => ?_⟩
      rw [read]
      split
      · rename_i here
        exact .inr ⟨⟨f, here ▸ there⟩, _, rfl⟩
      · exact like.nodes r
    have agree' :
        ∀ r, (∀ out ∈ rest, r ≠ routeOf after.working out.path) →
          next.get? r = after.get? r := by
      intro r elsewhere
      rw [read]
      split
      · -- No later output is here, so this one has stayed.
        rename_i here
        rw [stays] at elsewhere
        refine ((later.file_iff wet elsewhere _).mpr ?_).symm
        rw [here, stays, put.working, put.put]
      · rename_i here
        exact agree r (List.forall_mem_cons.mpr ⟨here, elsewhere⟩)
    obtain ⟨last, writes, same⟩ := ih placed.2 like' agree'
    exact ⟨last, .cons again writes, same⟩

end

end Output
end MirrorAdapter
