import MirrorAdapter.Proofs.Compilations
import MirrorAdapter.Proofs.Relocation.Directives
import Mathlib.Logic.Function.Basic

/-!
# Headers of moved declarations

Whether a declaration is sound does not depend on where it stands, and of its
place the headers show only the name of its file without the directories.
-/
namespace MirrorAdapter

namespace Mapping

section
variable (g : Location → Location) (path : Text)

/-- A header of the same mirror type for a file of the given path. -/
def Header.relocate (h : Header) : Header :=
  { h with
    location := g h.location, sourceFile := path,
    remoteTypes := h.remoteTypes.map (Reference.relocate g) }

def Converter.relocate (c : Converter) : Converter :=
  { c with location := g c.location }

def Field.relocate (f : Field) : Field :=
  { f with
    location := g f.location
    type := f.type.relocate g
    directives := f.directives.relocate g
    converter := f.converter.relocate g }

def Spec.relocate (s : Spec) : Spec :=
  { header := s.header.relocate g path,
    fields := s.fields.map (Field.relocate g) }

def Entry.relocate (e : Entry) : Entry :=
  { e with field := e.field.relocate g }

def Table.relocate (t : Table) : Table :=
  { t with
    header := t.header.relocate g path,
    entries := t.entries.map (Entry.relocate g) }

theorem Table.header_relocate (t : Table) :
    (t.relocate g path).header = t.header.relocate g path := rfl

theorem Header.remoteTypes_relocate (h : Header) :
    (h.relocate g path).remoteTypes =
      h.remoteTypes.map (Reference.relocate g) :=
  rfl

/-! ## Checks -/

theorem Field.ofDecl_relocate (f : Decl.Field) (d : Directive.FieldDirectives) :
    Field.ofDecl (f.relocate g) (d.relocate g) =
      (Field.ofDecl f d).relocate g := by
  have converter :
      Converter.infer (f.type.relocate g) (d.relocate g) =
        (Converter.infer f.type d).relocate g := by
    rcases d with ⟨_ | source, _ | via, getter, owned, location⟩ <;> rfl
  rw [Field.ofDecl, Field.relocate]
  simp only [Field.ofDecl, ← converter]
  rfl

theorem result_build_relocate {file file' : Decl.File}
    (includes : file'.includes.map (·.target) = file.includes.map (·.target))
    (m : Decl.Mirror) (model : Directive.Model) :
    (Spec.build file' (m.relocate g) (model.relocate g)).result =
      (Spec.build file m model).result.map (Spec.relocate g file'.path) := by
  have header : Header.ofMirror file' (m.relocate g) (model.relocate g).type =
      (Header.ofMirror file m model.type).relocate g file'.path := by
    simp only [Header.ofMirror, Header.relocate, includes,
      Decl.Mirror.relocate, List.map_map]
    rfl
  have fields :
      List.zipWith Field.ofDecl (m.relocate g).fields
        (model.relocate g).fields =
        (List.zipWith Field.ofDecl m.fields model.fields).map
          (Field.relocate g) := by
    show List.zipWith _ (m.fields.map _) (model.fields.map _) = _
    rw [List.zipWith_map, List.map_zipWith]
    simp only [Field.ofDecl_relocate]
  have lengths :
      ((model.relocate g).fields.length ≠ (m.relocate g).fields.length) =
        (model.fields.length ≠ m.fields.length) := by
    show ((model.fields.map _).length ≠ (m.fields.map _).length) = _
    rw [List.length_map, List.length_map]
  have repeated :
      (Repetition.repeats Decl.Field.name (m.relocate g).fields).isEmpty =
        (Repetition.repeats Decl.Field.name m.fields).isEmpty := by
    show (Repetition.repeats _ (m.fields.map _)).isEmpty = _
    rw [Repetition.repeats_map, List.isEmpty_map]
    rfl
  simp only [Spec.build, lengths]
  split
  · rfl
  · dsimp only
    rw [repeated, header, fields]
    split <;> rfl

theorem headerFaults_eq_nil_iff (h : Header) :
    h.faults = [] ↔ h.remoteTypes ≠ [] ∧
      (h.remoteTypes.map fun r => TypeSpelling.key r.spelling).Nodup := by
  rw [Header.faults, List.append_eq_nil_iff, List.map_eq_nil_iff,
    Repetition.repeats_eq_nil_iff]
  cases h.remoteTypes <;> simp

theorem headerFaults_relocate (h : Header) :
    (h.relocate g path).faults = [] ↔ h.faults = [] := by
  rw [headerFaults_eq_nil_iff, headerFaults_eq_nil_iff,
    Header.remoteTypes_relocate, List.map_map, ne_eq, List.map_eq_nil_iff]
  rfl

theorem fieldFaults_relocate (f : Field) :
    (f.relocate g).faults = [] ↔ f.faults = [] := by
  have getter :
      (f.relocate g).directives.getter.isNone = f.directives.getter.isNone :=
    Option.isNone_map
  have owned :
      (f.relocate g).directives.getterOwned = f.directives.getterOwned :=
    rfl
  have kind : (f.relocate g).converter.kind = f.converter.kind := rfl
  have spelling : (f.relocate g).converter.spelling = f.converter.spelling :=
    rfl
  simp only [Field.faults, List.append_eq_nil_iff, getter, owned, kind,
    spelling]
  refine and_congr (by split <;> simp) ?_
  cases f.converter.kind <;> cases TypeSpelling.isNonClass
      f.converter.spelling <;> simp

theorem reports_relocate (s : Spec) :
    (s.relocate g path).reports = [] ↔ s.reports = [] := by
  rw [reports_eq_nil_iff, reports_eq_nil_iff]
  show (s.header.relocate g path).faults = [] ∧
      (∀ f ∈ s.fields.map (Field.relocate g), f.faults = []) ↔ _
  rw [headerFaults_relocate, List.forall_mem_map]
  simp only [fieldFaults_relocate]

theorem Entry.ofField_relocate (f : Field) :
    Entry.ofField (f.relocate g) = (Entry.ofField f).relocate g := by
  have getter :
      (f.relocate g).directives.getter.isNone = f.directives.getter.isNone :=
    Option.isNone_map
  have access :
      Access.ofDirectives (f.relocate g).directives =
        Access.ofDirectives f.directives := by
    rcases f
        with ⟨name, location, type,
          ⟨source, via, _ | getter, _ | _, flagged⟩, converter⟩
        <;> rfl
  simp only [Entry.ofField, Entry.relocate, getter, access]

theorem Table.ofSpec_relocate (s : Spec) :
    Table.ofSpec (s.relocate g path) = (Table.ofSpec s).relocate g path := by
  have whole :
      (s.fields.map (Field.relocate g)).all (·.directives.getter.isNone) =
        s.fields.all (·.directives.getter.isNone) := by
    rw [List.all_map]
    exact congrArg s.fields.all (funext fun f => Option.isNone_map)
  simp only [Table.ofSpec, Table.relocate, Spec.relocate, whole, List.map_map]
  congr 1
  exact List.map_congr_left fun f _ => Entry.ofField_relocate g f

theorem result_validate_relocate (s : Spec) :
    (s.relocate g path).validate.result =
      s.validate.result.map (Table.relocate g path) := by
  have silent : (s.relocate g path).reports.isEmpty = s.reports.isEmpty := by
    rw [Bool.eq_iff_iff, List.isEmpty_iff, List.isEmpty_iff, reports_relocate]
  simp only [Spec.validate, silent, Table.ofSpec_relocate]
  split <;> rfl

end
end Mapping

/-! ## Rendering -/

namespace Adapter

open Mapping (Header Table Entry)

section
variable (g : Location → Location) (path : Text)

theorem member_relocate (h : Header) (e : Entry) :
    Member.ofEntry (h.relocate g path) (e.relocate g) = Member.ofEntry h e := by
  rcases e
      with ⟨⟨name, location, type,
          ⟨_ | source, via, _ | getter, owned, flagged⟩, converter⟩,
        access, again⟩
      <;> rfl

theorem members_relocate (t : Table) :
    members (t.relocate g path) = members t := by
  show (t.entries.map (Entry.relocate g)).map
      (Member.ofEntry (t.header.relocate g path)) = _
  rw [List.map_map]
  exact List.map_congr_left fun e _ => member_relocate g path t.header e

theorem remoteNames_relocate (h : Header) :
    remoteNames (h.relocate g path) = remoteNames h := by
  have types :
      (h.relocate g path).remoteTypes.map (·.spelling) =
        h.remoteTypes.map (·.spelling) := by
    rw [Header.remoteTypes_relocate, List.map_map]
    rfl
  rw [remoteNames, types]
  rfl

theorem converterHeaders_relocate (t : Table) (index : Index) :
    converterHeaders (t.relocate g path) index = converterHeaders t index := by
  have spellings :
      (t.relocate g path).entries.flatMap converterSpellings =
        t.entries.flatMap converterSpellings := by
    show (t.entries.map (Entry.relocate g)).flatMap _ = _
    rw [List.flatMap_map]
    rfl
  rw [converterHeaders, spellings]
  rfl

variable [Support] {path} {t : Table}
variable (base : Support.fileName path = Support.fileName t.header.sourceFile)
include base

theorem prologue_relocate (guard : Text) :
    prologue (t.header.relocate g path) guard = prologue t.header guard := by
  simp only [prologue, Header.relocate, base]
  rfl

theorem reprHeader_relocate (index : Index) :
    reprHeader (t.relocate g path) index = reprHeader t index := by
  have fields :
      (t.relocate g path).entries.map mirrorMember =
        t.entries.map mirrorMember := by
    show (t.entries.map (Entry.relocate g)).map _ = _
    rw [List.map_map]
    rfl
  have lines : reprLines (t.relocate g path) index = reprLines t index := by
    simp only [reprLines, members_relocate, converterHeaders_relocate, fields]
    rw [Table.header_relocate, prologue_relocate g base]
    rfl
  rw [reprHeader, lines]
  rfl

theorem archiveHeaders_relocate :
    archiveHeaders (t.relocate g path) = archiveHeaders t := by
  have lines (remote : RemoteName) :
      archiveLines (t.relocate g path) remote = archiveLines t remote := by
    simp only [archiveLines, buildLines, serializeLines, members_relocate]
    rw [Table.header_relocate, prologue_relocate g base]
    rfl
  have header : archiveHeader (t.relocate g path) = archiveHeader t := by
    funext remote
    rw [archiveHeader, lines]
    rfl
  rw [archiveHeaders, header, Table.header_relocate, remoteNames_relocate]
  rfl

theorem deserializeHeader_relocate :
    (deserializeHeader (t.relocate g path)).toOption =
      (deserializeHeader t).toOption := by
  have rebuild (remote : Text) :
      rebuildLines (t.relocate g path) remote = rebuildLines t remote := by
    simp only [rebuildLines, members_relocate]
    rfl
  have lines : deserializeLines (t.relocate g path) = deserializeLines t := by
    simp only [deserializeLines, rebuild]
    rw [Table.header_relocate, prologue_relocate g base,
      Header.remoteTypes_relocate, List.flatMap_map]
    rfl
  have whole :
      (t.relocate g path).fullyReconstructable = t.fullyReconstructable :=
    rfl
  rw [deserializeHeader, deserializeHeader, lines, whole]
  split <;> rfl

theorem umbrellaHeader_relocate (headers : List Artifact) :
    umbrellaHeader (t.relocate g path) headers = umbrellaHeader t headers := by
  simp only [umbrellaHeader, umbrellaLines]
  rw [Table.header_relocate, prologue_relocate g base]
  rfl

end
end Adapter

open Decl (File Mirror Module)
open Mapping (Spec Table)
open Adapter (Artifact Index)

section
variable (g : Location → Location)

theorem headers_render_relocate [Support] {path : Text} {t : Table}
    (base : Support.fileName path = Support.fileName t.header.sourceFile)
    (index : Index) :
    (render (t.relocate g path) index).1 = (render t index).1 := by
  have included :
      includedHeaders (t.relocate g path) index = includedHeaders t index := by
    rw [includedHeaders, Adapter.reprHeader_relocate g base,
      Adapter.archiveHeaders_relocate g base,
      Adapter.deserializeHeader_relocate g base]
    rfl
  rw [headers_render, headers_render, included,
    Adapter.umbrellaHeader_relocate g base]

/-! ## Declarations and modules -/

theorem keywordReports_relocate (m : Mirror) :
    keywordReports (m.relocate g) =
      (keywordReports m).map (Diagnostic.relocate g) := by
  have named (location : Location) (what name : Text) :
      (if Name.isKeyword name then [keywordReport (g location) what name]
        else []) =
        (if Name.isKeyword name then [keywordReport location what name]
          else []).map (Diagnostic.relocate g) := by
    split <;> rfl
  simp only [keywordReports, List.map_append, List.map_flatMap, ← named]
  simp only [Mirror.relocate, List.flatMap_map]
  rfl

theorem table_tableOf_relocate {file file' : File}
    (includes : file'.includes.map (·.target) = file.includes.map (·.target))
    (m : Mirror) :
    (tableOf file' (m.relocate g)).1 =
      (tableOf file m).1.map (Table.relocate g file'.path) := by
  simp only [tableOf, keywordReports_relocate, List.isEmpty_map,
    Directive.result_ofMirror_relocate]
  split
  · rfl
  · rcases (Directive.ofMirror m).result with error | model
    · rfl
    · simp only [Except.map, Mapping.result_build_relocate g includes m model]
      rcases (Spec.build file m model).result with error | spec
      · rfl
      · simp only [Except.map, Mapping.result_validate_relocate]
        rcases spec.validate.result with error | t <;> rfl

/-- What a result shows beside its log: whose it is, whether it failed, and
its headers. -/
def Compilation.outcome (c : Compilation) : Text × Bool × List Artifact :=
  (c.qualifiedName, c.failed, c.headers)

theorem outcome_compileMirror [Support]
    (file : File) (m : Mirror) (index : Index) :
    (compileMirror file m index).outcome =
      (m.qualifiedName, (tableOf file m).1.isNone,
        ((tableOf file m).1.map fun t => (render t index).1).getD []) := by
  unfold compileMirror
  rcases tableOf file m with ⟨_ | t, log⟩ <;> rfl

theorem sourceFile_of_tableOf {file : File} {m : Mirror} {t : Table}
    (h : (tableOf file m).1 = some t) : t.header.sourceFile = file.path := by
  obtain ⟨model, spec, t', stages, table⟩ | ⟨log, table, -, -⟩ :=
    tableOf_cases file m
  · obtain rfl : t' = t := by simpa [table] using h
    rw [stages.header_eq]
    rfl
  · simp [table] at h

theorem outcome_compileMirror_relocate [Support] {file file' : File}
    (includes : file'.includes.map (·.target) = file.includes.map (·.target))
    (base : Support.fileName file'.path = Support.fileName file.path)
    (m : Mirror) (index : Index) :
    (compileMirror file' (m.relocate g) index).outcome =
      (compileMirror file m index).outcome := by
  rw [outcome_compileMirror, outcome_compileMirror,
    table_tableOf_relocate g includes]
  cases table : (tableOf file m).1 with
  | none => rfl
  | some t =>
    have source := sourceFile_of_tableOf table
    have headers :=
      headers_render_relocate g
        (base.trans (congrArg Support.fileName source.symm)) index
    simp only [Option.map_some, Option.getD_some, headers]
    rfl

/-- One path for all that have the same last component. -/
noncomputable def representative [Support] (p : Path) : Path :=
  Function.invFun Support.fileName (Support.fileName p)

theorem fileName_representative [Support] (p : Path) :
    Support.fileName (representative p) = Support.fileName p :=
  Function.invFun_eq ⟨p, rfl⟩

variable [Support]

/-- The file with all declarations and include lines moved, known by the last
component of its path. -/
noncomputable def Decl.File.relocate (f : File) : File :=
  { path := representative f.path
    includes := f.includes.map (Decl.Include.relocate g)
    mirrors := f.mirrors.map (Mirror.relocate g) }

theorem declarations_relocate (m : Module) :
    declarations (m.map (File.relocate g)) = (declarations m).map
        (Prod.map (File.relocate g) (Mirror.relocate g)) := by
  simp only [declarations, List.flatMap_map, List.map_flatMap,
    File.relocate, List.map_map]
  rfl

theorem ofModule_relocate (m : Module) :
    Index.ofModule (m.map (File.relocate g)) = Index.ofModule m := by
  have mirrors :
      (m.map (File.relocate g)).flatMap (·.mirrors) =
        (m.flatMap (·.mirrors)).map (Mirror.relocate g) := by
    rw [List.flatMap_map, List.map_flatMap]
    rfl
  rw [Index.ofModule, mirrors, List.foldl_map]
  rfl

theorem outcome_resultFor_relocate (index : Index)
    (pair : (File × Mirror) × Option (File × Mirror)) :
    (resultFor index
        (pair.map (Prod.map (File.relocate g) (Mirror.relocate g)) (Option.map
            (Prod.map (File.relocate g) (Mirror.relocate g))))).outcome =
      (resultFor index pair).outcome := by
  obtain ⟨⟨file, m⟩, _ | ⟨other, first⟩⟩ := pair
  · have includes :
        (file.relocate g).includes.map (·.target) =
          file.includes.map (·.target) := by
      show (file.includes.map (Decl.Include.relocate g)).map _ = _
      rw [List.map_map]
      rfl
    exact outcome_compileMirror_relocate g includes
      (fileName_representative file.path) m index
  · rfl

/-- What a module yields, apart from logs, does not depend on directories and
on places in files. -/
theorem outcomes_relocate (m : Module) :
    (compileModule (m.map (File.relocate g))).map Compilation.outcome =
      (compileModule m).map Compilation.outcome := by
  rw [compileModule_eq, compileModule_eq, namesakes, declarations_relocate,
    ofModule_relocate, Repetition.withFirst_map, List.map_map, List.map_map,
    List.map_map]
  exact List.map_congr_left
    fun pair _ => outcome_resultFor_relocate g (Index.ofModule m) pair

end

end MirrorAdapter
