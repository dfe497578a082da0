import MirrorAdapter.Proofs.FileSystem.Persistence
import MirrorAdapter.Proofs.Writing

/-!
# Runs over outputs

A run writes outputs one after another and comes either to their end or to one
that cannot be written. A dry run always comes to the end. What is recorded
depends on the working directory alone, which no write changes, so the records
of a run are an initial part of those of a dry run.
-/
namespace MirrorAdapter
namespace Output

variable {policy : Policy} {fs after : FileSystem} {o : Output}

/-! ## The working directory -/

theorem working_write (policy : Policy) (fs : FileSystem) (o : Output) :
    (write policy fs o).1.working = fs.working := by
  cases dry : policy.dryRun with
  | true => rw [write, if_pos dry]
  | false =>
    rcases write_cases dry fs o
        with ⟨_, e, failed, -, working, -⟩ | ⟨_, written, put, -⟩
    · rw [failed, working]
    · rw [written, put.working]

/-- The absolute path of an output depends on the working directory alone. -/
theorem resolved_congr (same : after.working = fs.working) (o : Output) :
    o.resolved after = o.resolved fs := by
  simp only [resolved, FileSystem.resolved, FileSystem.workingPath, same]

/-! ## How far a run comes -/

/-- All outputs can be written one after another, and lead from the first file
system to the second. -/
inductive Writes (policy : Policy) :
    FileSystem → List Output → FileSystem → Prop where
  | nil (fs : FileSystem) : Writes policy fs [] fs
  | cons {fs middle after : FileSystem} {o : Output} {rest : List Output} :
      write policy fs o = (middle, none) → Writes policy middle rest after →
      Writes policy fs (o :: rest) after

/-- How far a run over `done ++ rest` comes. -/
inductive Reaches (policy : Policy) (fs : FileSystem) (done : List Output) :
    List Output → Written → Prop where
  /-- All outputs are written. -/
  | finished {after : FileSystem} :
      Writes policy fs done after →
      Reaches policy fs done [] ⟨after, done.map (·.resolved fs), none⟩
  /-- The first of the rest cannot be written, but is recorded. -/
  | stopped {middle after : FileSystem} {o : Output}
      {rest : List Output} {e : Error} :
      Writes policy fs done middle → write policy middle o = (after, some e) →
      Reaches policy fs done (o :: rest)
        ⟨after, (done ++ [o]).map (·.resolved fs), some e⟩

/-- One output more in front. -/
theorem Reaches.cons {middle : FileSystem} {done rest : List Output}
    {w : Written} (written : write policy fs o = (middle, none))
    (h : Reaches policy middle done rest w) :
    Reaches policy fs (o :: done) rest
      { w with recorded := o.resolved fs :: w.recorded } := by
  have working : middle.working = fs.working := by
    rw [← working_write policy fs o, written]
  have records :
      (fun out : Output => out.resolved middle) = fun out => out.resolved fs :=
    funext (resolved_congr working)
  cases h with
  | finished writes =>
    rw [records]
    exact .finished (.cons written writes)
  | stopped writes failed =>
    rw [records]
    exact .stopped (.cons written writes) failed

theorem exists_reaches (policy : Policy)
    (fs : FileSystem) (outputs : List Output) :
    ∃ done rest, outputs = done ++ rest ∧
      Reaches policy fs done rest (writeAll policy fs outputs) := by
  induction outputs generalizing fs with
  | nil => exact ⟨[], [], rfl, .finished (.nil fs)⟩
  | cons o outputs ih =>
    rw [writeAll]
    cases written : write policy fs o with
    | mk middle result =>
      cases result with
      | some e => exact ⟨[], o :: outputs, rfl, .stopped (.nil fs) written⟩
      | none =>
        obtain ⟨done, rest, rfl, reaches⟩ := ih middle
        exact ⟨o :: done, rest, rfl, reaches.cons written⟩

theorem Reaches.recorded {done rest : List Output}
    {w : Written} (h : Reaches policy fs done rest w) :
    w.recorded = (done ++ rest.take 1).map (·.resolved fs) := by
  cases h <;> simp

/-- A run without an error has written all outputs. -/
theorem writes_of_succeeds {outputs : List Output}
    (h : Succeeds policy fs outputs) :
    Writes policy fs outputs (writeAll policy fs outputs).fileSystem := by
  obtain ⟨done, rest, rfl, reaches⟩ := exists_reaches policy fs outputs
  unfold Succeeds at h
  generalize writeAll policy fs (done ++ rest) = w at h reaches
  cases reaches with
  | finished writes => simpa using writes
  | stopped => cases h

theorem Writes.writeAll_eq {outputs : List Output}
    (h : Writes policy fs outputs after) :
    writeAll policy fs outputs =
      ⟨after, outputs.map (·.resolved fs), none⟩ := by
  induction h with
  | nil => rfl
  | @cons fs middle after o rest written _ ih =>
    have working := working_write policy fs o
    rw [written] at working
    rw [writeAll, written]
    dsimp only
    rw [ih, List.map_cons]
    simp only [resolved_congr working]

theorem Writes.succeeds {outputs : List Output}
    (h : Writes policy fs outputs after) : Succeeds policy fs outputs := by
  rw [Succeeds, h.writeAll_eq]

/-- A dry run changes nothing and records all outputs. -/
theorem writes_of_dryRun (dry : policy.dryRun = true) (fs : FileSystem)
    (outputs : List Output) : Writes policy fs outputs fs := by
  induction outputs with
  | nil => exact .nil fs
  | cons o outputs ih => exact .cons (by rw [write, if_pos dry]) ih

/-- What a run records is an initial part of its outputs. -/
theorem recorded_prefix (policy : Policy)
    (fs : FileSystem) (outputs : List Output) :
    (writeAll policy fs outputs).recorded <+: outputs.map (·.resolved fs) := by
  obtain ⟨done, rest, rfl, reaches⟩ := exists_reaches policy fs outputs
  rw [reaches.recorded]
  exact List.IsPrefix.map
    _ ((List.prefix_append_right_inj done).mpr (List.take_prefix 1 rest))

/-! ## What lasts -/

theorem Writes.advances (wet : policy.dryRun = false) {outputs : List Output}
    (h : Writes policy fs outputs after) : FileSystem.Advances fs after := by
  induction h with
  | nil fs => exact .refl fs
  | cons written _ ih => exact (puts_write wet written).advances.trans ih

theorem Writes.faults (wet : policy.dryRun = false) {outputs : List Output}
    (h : Writes policy fs outputs after) : after.faults = fs.faults := by
  induction h with
  | nil => rfl
  | cons written _ ih => rw [ih, (puts_write wet written).faults]

/-- Each output is written at some point of a run, and nothing is lost before
and after. -/
theorem Writes.exists_write {outputs : List Output}
    (wet : policy.dryRun = false) (h : Writes policy fs outputs after)
    (mem : o ∈ outputs) :
    ∃ before behind,
      FileSystem.Advances fs before ∧ write policy before o = (behind, none) ∧
      FileSystem.Advances behind after := by
  induction h with
  | nil => cases mem
  | @cons fs middle after first rest written later ih =>
    rcases List.mem_cons.mp mem with rfl | behind
    · exact ⟨fs, middle, .refl fs, written, later.advances wet⟩
    · obtain ⟨before, behind, front, here, back⟩ := ih behind
      exact ⟨before, behind, (puts_write wet written).advances.trans front,
        here, back⟩

/-- Files at routes of no output are as before. -/
theorem Writes.file_iff (wet : policy.dryRun = false)
    {outputs : List Output} (h : Writes policy fs outputs after) {r : Route}
    (other : ∀ out ∈ outputs, r ≠ FileSystem.routeOf fs.working out.path)
    (f : StoredFile) :
    after.get? r = some (.file f) ↔ fs.get? r = some (.file f) := by
  have same := file_iff_writeAll wet h.succeeds other f
  rwa [h.writeAll_eq] at same

/-- A file that was not there before is one that was written. -/
theorem Writes.exists_of_file (wet : policy.dryRun = false)
    {outputs : List Output} (h : Writes policy fs outputs after)
    {r : Route} {f : StoredFile} (there : after.get? r = some (.file f)) :
    fs.get? r = some (.file f) ∨ ∃ out ∈ outputs,
      r = FileSystem.routeOf fs.working out.path ∧ f = out.stored policy := by
  induction h with
  | nil => exact .inl there
  | @cons fs middle after first rest written later ih =>
    have put := puts_write wet written
    rw [put.working] at ih
    rcases ih there with before | ⟨out, mem, place⟩
    · by_cases here : r = FileSystem.routeOf fs.working first.path
      · subst here
        rw [put.put] at before
        cases before
        exact .inr ⟨first, .head _, rfl, rfl⟩
      · exact .inl ((put.file_iff here).mp before)
    · exact .inr ⟨out, .tail _ mem, place⟩

end Output
end MirrorAdapter
