import MirrorAdapter.Proofs.Checks.Outcomes

/-!
# Results of a module

What a module yields is a list of results that goes along its declarations,
one for each. A result has headers iff it has no errors, so nothing fails in
silence and nothing that was reported as wrong is generated; of two
declarations with one name at most one has headers.
-/
namespace MirrorAdapter

open Decl (File Mirror Module)
open Mapping (Table)
open Adapter (Artifact Index)

/-! ## Headers and notes of a table -/

/-- The headers of a table that its umbrella includes. -/
def includedHeaders [Support] (t : Table) (index : Index) : List Artifact :=
  Adapter.reprHeader t index :: Adapter.archiveHeaders t ++
    (Adapter.deserializeHeader t).toOption.toList

theorem headers_render [Support] (t : Table) (index : Index) :
    (render t index).1 = includedHeaders t index ++
        [Adapter.umbrellaHeader t (includedHeaders t index)] := by
  unfold render includedHeaders
  cases Adapter.deserializeHeader t <;> simp [Except.toOption]

theorem notes_render [Support] (t : Table) (index : Index) :
    (render t index).2 =
      if t.fullyReconstructable then [] else [Adapter.notDerived t] := by
  unfold render Adapter.deserializeHeader
  cases t.fullyReconstructable <;> rfl

/-! ## One declaration -/

/-- A declaration is compiled to the headers of its table, or fails with
errors. -/
theorem compileMirror_cases [Support] (file : File) (m : Mirror)
    (index : Index) : (∃ model spec t, Stages file m model spec t ∧
      compileMirror file m index =
        { qualifiedName := m.qualifiedName
          sourceFile := file.path
          adapters := some { table := t, headers := (render t index).1 }
          log := (render t index).2 }) ∨
      ∃ log,
        compileMirror file m index =
          { qualifiedName := m.qualifiedName, sourceFile := file.path, log } ∧
        log ≠ [] ∧ ∀ d ∈ log, d.isError = true := by
  obtain ⟨model, spec, t, stages, table⟩ | ⟨log, table, reported, errors⟩ :=
    tableOf_cases file m
  · exact .inl ⟨model, spec, t, stages, by simp [compileMirror, table]⟩
  · exact .inr ⟨log, by simp [compileMirror, table], reported, errors⟩

/-- What the result for a declaration says: whose it is, that it has headers
or errors, and that beside its headers it has at most a note. -/
structure Compilation.Answers (declaration : File × Mirror)
    (c : Compilation) : Prop where
  qualifiedName : c.qualifiedName = declaration.2.qualifiedName
  sourceFile : c.sourceFile = declaration.1.path
  location : ∀ t, c.table = some t → t.header.location = declaration.2.location
  failed_iff_hasErrors : c.failed = true ↔ c.log.hasErrors = true
  failed_iff_headers : c.failed = true ↔ c.headers = []
  notes : c.failed = false → c.log = [] ∨ ∃ note,
      c.log = [note] ∧ note.severity = .note ∧ note.kind = .notReconstructable

theorem Log.hasErrors_of_errors {log : Log} (reported : log ≠ [])
    (errors : ∀ d ∈ log, d.isError = true) : log.hasErrors = true := by
  obtain ⟨d, rest, rfl⟩ := List.exists_cons_of_ne_nil reported
  exact List.any_eq_true.mpr ⟨d, .head _, errors d (.head _)⟩

/-- A result without headers is as it should be if errors come with it. -/
theorem Compilation.answers_of_errors (file : File) (m : Mirror) {log : Log}
    (reported : log ≠ []) (errors : ∀ d ∈ log, d.isError = true) :
    Compilation.Answers (file, m)
      { qualifiedName := m.qualifiedName, sourceFile := file.path, log } where
  qualifiedName := rfl
  sourceFile := rfl
  location := by simp [Compilation.table]
  failed_iff_hasErrors := by
    simp [Compilation.failed, Log.hasErrors_of_errors reported errors]
  failed_iff_headers := by simp [Compilation.failed, Compilation.headers]
  notes := by simp [Compilation.failed]

theorem answers_compileMirror [Support] (file : File) (m : Mirror)
    (index : Index) : (compileMirror file m index).Answers (file, m) := by
  obtain ⟨model, spec, t, stages, result⟩ | ⟨log, result, reported, errors⟩ :=
    compileMirror_cases file m index
  case inr =>
    rw [result]
    exact Compilation.answers_of_errors file m reported errors
  have notes :
      (render t index).2 = [] ∨
      (render t index).2 = [Adapter.notDerived t] := by
    rw [notes_render]
    cases t.fullyReconstructable <;> simp
  rw [result]
  exact
    { qualifiedName := rfl
      sourceFile := rfl
      location := by
        intro t' same
        obtain rfl : t = t' := Option.some.inj same
        rw [stages.header_eq]
        rfl
      failed_iff_hasErrors := by
        -- A note is no error.
        rcases notes with none_made | note <;>
          simp [Compilation.failed, Log.hasErrors, Diagnostic.isError,
            Adapter.notDerived, *]
      failed_iff_headers := by
        simp [Compilation.failed, Compilation.headers, headers_render]
      notes := fun _ => notes.imp_right fun note => ⟨_, note, rfl, rfl⟩ }

theorem answers_rejectRepeated (file : File) (m first : Mirror) :
    (rejectRepeated file m first).Answers (file, m) :=
  Compilation.answers_of_errors file m (by simp) (by simp [Diagnostic.isError])

/-! ## All declarations -/

/-- The result for a declaration, given the first one before it with its name,
if there is any. -/
def resultFor [Support] (index : Index) :
    (File × Mirror) × Option (File × Mirror) → Compilation
  | ((file, m), none) => compileMirror file m index
  | ((file, m), some (_, first)) => rejectRepeated file m first

/-- The declarations with their first namesakes before them. -/
def namesakes (m : Module) : List ((File × Mirror) × Option (File × Mirror)) :=
  Repetition.withFirst (·.2.qualifiedName) (declarations m)

theorem namesakes_map_fst (m : Module) :
    (namesakes m).map Prod.fst = declarations m :=
  Repetition.withFirst_map_fst _ _

theorem compileModule_eq [Support] (m : Module) :
    compileModule m = (namesakes m).map (resultFor (Index.ofModule m)) := by
  unfold compileModule namesakes
  refine List.map_congr_left fun pair _ => ?_
  obtain ⟨⟨file, mirror⟩, none | ⟨other, first⟩⟩ := pair <;> rfl

theorem answers_resultFor [Support] (index : Index)
    (pair : (File × Mirror) × Option (File × Mirror)) :
    (resultFor index pair).Answers pair.1 := by
  obtain ⟨⟨file, m⟩, none | ⟨other, first⟩⟩ := pair
  · exact answers_compileMirror file m index
  · exact answers_rejectRepeated file m first

/-- What did not fail was compiled, so it is the first with its name. -/
theorem isNone_of_not_failed [Support] {index : Index}
    {pair : (File × Mirror) × Option (File × Mirror)}
    (h : (resultFor index pair).failed = false) : pair.2.isNone = true := by
  obtain ⟨⟨file, m⟩, none | ⟨other, first⟩⟩ := pair
  · rfl
  · cases h

theorem length_compileModule [Support] (m : Module) :
    (compileModule m).length = (declarations m).length := by
  rw [compileModule_eq, List.length_map, ← namesakes_map_fst, List.length_map]

theorem nodup_names_succeeded [Support] (m : Module) :
    (((compileModule m).filter fun c => !c.failed).map
        (·.qualifiedName)).Nodup := by
  have distinct :
      ((namesakes m).filter (·.2.isNone)).map (·.1.2.qualifiedName)
        |>.Nodup := by
    have := Repetition.nodup_firsts (·.2.qualifiedName) (declarations m)
    rwa [Repetition.firsts, List.map_map] at this
  have names (pair : (File × Mirror) × Option (File × Mirror)) :
      (resultFor (Index.ofModule m) pair).qualifiedName =
        pair.1.2.qualifiedName :=
    (answers_resultFor (Index.ofModule m) pair).qualifiedName
  rw [compileModule_eq, List.filter_map, List.map_map]
  simp only [Function.comp_def, names]
  refine distinct.sublist
    (List.Sublist.map _ (List.monotone_filter_right _ fun pair succeeded => ?_))
  exact isNone_of_not_failed (by simpa using succeeded)

/-- A module has one result for each declaration, in order; each has headers
iff it has no errors, and then says at most, in one note, that remote values
cannot be rebuilt; no two results with headers have one name. -/
theorem results_of_module [Support] (m : Module) :
    List.Forall₂ Compilation.Answers (declarations m) (compileModule m) ∧
    (((compileModule m).filter fun c => !c.failed).map
        (·.qualifiedName)).Nodup := by
  refine ⟨?_, nodup_names_succeeded m⟩
  have inOrder : (namesakes m).map Prod.fst = declarations m :=
    Repetition.withFirst_map_fst _ _
  rw [compileModule_eq, ← inOrder, List.forall₂_map_left_iff,
    List.forall₂_map_right_iff, List.forall₂_same]
  exact fun pair _ => answers_resultFor (Index.ofModule m) pair

/-! ## Results with headers -/

/-- The result for a declaration has the headers of a table with the declared
name. -/
structure Compilation.Renders [Support] (c : Compilation) (index : Index)
    (declaration : File × Mirror) (t : Table) : Prop where
  qualifiedName : c.qualifiedName = declaration.2.qualifiedName
  adapters : c.adapters = some { table := t, headers := (render t index).1 }
  scope : t.header.scope = declaration.2.scope
  name : t.header.name = declaration.2.name

theorem Compilation.Renders.failed [Support] {c : Compilation}
    {index : Index} {declaration : File × Mirror} {t : Table}
    (h : c.Renders index declaration t) : c.failed = false := by
  rw [Compilation.failed, h.adapters]
  rfl

theorem Compilation.Renders.headers [Support] {c : Compilation}
    {index : Index} {declaration : File × Mirror} {t : Table}
    (h : c.Renders index declaration t) : c.headers = (render t index).1 := by
  rw [Compilation.headers, h.adapters]

/-- Each result of a module has failed, or is what the stages of some
declaration lead to. -/
theorem stages_of_mem_compileModule [Support] {m : Module}
    {c : Compilation} (h : c ∈ compileModule m) :
    c.adapters = none ∨ ∃ file mirror model spec t,
      (file, mirror) ∈ declarations m ∧ Stages file mirror model spec t ∧
        c = { qualifiedName := mirror.qualifiedName
              sourceFile := file.path
              adapters :=
              some { table := t, headers := (render t (Index.ofModule m)).1 }
              log := (render t (Index.ofModule m)).2 } := by
  rw [compileModule_eq] at h
  obtain ⟨⟨⟨file, mirror⟩, first⟩, paired, rfl⟩ := List.mem_map.mp h
  have declared : (file, mirror) ∈ declarations m := by
    rw [← namesakes_map_fst]
    exact List.mem_map_of_mem paired
  obtain none | ⟨other, first⟩ := first
  case some => exact .inl rfl
  obtain ⟨model, spec, t, stages, result⟩ | ⟨log, result, -, -⟩ :=
    compileMirror_cases file mirror (Index.ofModule m)
  · exact .inr ⟨file, mirror, model, spec, t, declared, stages,
      by rw [resultFor, result]⟩
  · exact .inl (by rw [resultFor, result])

/-- Each result of a module has failed, or has the headers of a table for some
declaration. -/
theorem renders_of_mem_compileModule [Support] {m : Module}
    {c : Compilation} (h : c ∈ compileModule m) :
    c.adapters = none ∨ ∃ declaration ∈ declarations m,
      ∃ t, c.Renders (Index.ofModule m) declaration t := by
  obtain failed | ⟨file, mirror, model, spec, t, declared, stages, rfl⟩ :=
    stages_of_mem_compileModule h
  · exact .inl failed
  · have header := stages.header_eq
    exact .inr
      ⟨_, declared, t, rfl, rfl, by rw [header]; rfl, by rw [header]; rfl⟩

/-- A table of a result is what the stages of some declaration yield. -/
theorem stages_of_table [Support] {m : Module} {c : Compilation}
    {t : Table} (h : c ∈ compileModule m) (table : c.table = some t) :
    ∃ file mirror, (file, mirror) ∈ declarations m ∧ c.sourceFile = file.path ∧
      ∃ model spec, Stages file mirror model spec t := by
  obtain failed | ⟨file, mirror, model, spec, t', declared, stages, rfl⟩ :=
    stages_of_mem_compileModule h
  · simp [Compilation.table, failed] at table
  · obtain rfl : t' = t := by simpa [Compilation.table] using table
    exact ⟨file, mirror, declared, rfl, model, spec, stages⟩

end MirrorAdapter
