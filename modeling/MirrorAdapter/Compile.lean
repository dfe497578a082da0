import MirrorAdapter.Adapter.Deserialize
import MirrorAdapter.Adapter.Repr
import MirrorAdapter.Adapter.Umbrella
import MirrorAdapter.Directive.Parser
import MirrorAdapter.Mapping.Build
import MirrorAdapter.Mapping.Json
import MirrorAdapter.Mapping.Validate
import MirrorAdapter.Name.Identifier

/-!
# From declarations to generated headers

Every mirror type of a module is compiled by itself: it is checked in stages,
each of which must pass before the next, and then all its headers are
rendered. Of other declarations only the index of their names matters, and
whether one of them has the same name and comes first.
-/
namespace MirrorAdapter

open Decl (File Mirror Module)
open Adapter (Artifact Index)

variable [Support]

/-- The headers of a mirror type and the table they were made from. -/
structure Adapters where
  table : Mapping.Table
  headers : List Artifact

/-- The result for one declaration; a failed one has no adapters. -/
structure Compilation where
  qualifiedName : Text
  sourceFile : Text
  adapters : Option Adapters := none
  log : Log := []

namespace Compilation

def failed (c : Compilation) : Bool := c.adapters.isNone

def headers (c : Compilation) : List Artifact :=
  match c.adapters with
  | none => []
  | some a => a.headers

def table (c : Compilation) : Option Mapping.Table := c.adapters.map (·.table)

end Compilation

/-- The report of a name that cannot be declared in generated code. -/
def keywordReport (location : Location) (what name : Text) : Diagnostic where
  severity := .error
  location := location
  message :=
    what ++ " " ++ name.quoted ++ " is a C++ keyword; rename it, e.g. " ++
      (Name.sanitized name).quoted

/-- The reports of names of a declaration that are keywords. -/
def keywordReports (m : Mirror) : Log :=
  let named (location : Location) (what name : Text) : Log :=
    if Name.isKeyword name then [keywordReport location what name] else []
  named m.location "mirror type name" m.name ++
    m.scope.flatMap (named m.location "namespace component") ++
    m.fields.flatMap fun f => named f.location
          ((Subject.mirror m.qualifiedName).render ++ " field") f.name

/-- All headers of a table, the one that includes the others last, with the
note where one is missing. -/
def render (t : Mapping.Table) (index : Index) : List Artifact × Log :=
  let first := Adapter.reprHeader t index :: Adapter.archiveHeaders t
  let (headers, log) : List Artifact × Log :=
    match Adapter.deserializeHeader t with
    | .ok header => (first ++ [header], [])
    | .error note => (first, [note])
  (headers ++ [Adapter.umbrellaHeader t headers], log)

/-- The table of a declaration and all reports on the way to it. -/
def tableOf (file : File) (m : Mirror) : Option Mapping.Table × Log :=
  let keywords := keywordReports m
  if !keywords.isEmpty then (none, keywords)
  else
    let directives := Directive.ofMirror m
    match directives.result with
    | .error _ => (none, directives.log)
    | .ok model =>
      let spec := Mapping.Spec.build file m model
      match spec.result with
      | .error _ => (none, directives.log ++ spec.log)
      | .ok found =>
        let table := found.validate
        (table.result.toOption, directives.log ++ spec.log ++ table.log)

def compileMirror (file : File) (m : Mirror) (index : Index) : Compilation :=
  match tableOf file m with
  | (none, log) =>
    { qualifiedName := m.qualifiedName, sourceFile := file.path, log }
  | (some table, log) =>
    let (headers, notes) := render table index
    { qualifiedName := m.qualifiedName
      sourceFile := file.path
      adapters := some { table, headers }
      log := log ++ notes }

/-- The result for a declaration whose name another one has taken. -/
def rejectRepeated (file : File) (m first : Mirror) : Compilation where
  qualifiedName := m.qualifiedName
  sourceFile := file.path
  log :=
    [{ severity := .error
       location := m.location
       message := "mirror type " ++ m.qualifiedName.quoted ++
         " is already declared at " ++ first.location.render }]

/-- All declarations of a module with their files, in order. -/
def declarations (m : Module) : List (File × Mirror) :=
  m.flatMap fun file => file.mirrors.map (file, ·)

/-- One result for each declaration of a module, in order. -/
def compileModule (m : Module) : List Compilation :=
  let index := Index.ofModule m
  (Repetition.withFirst (·.2.qualifiedName) (declarations m)).map fun
    | ((file, mirror), none) => compileMirror file mirror index
    | ((file, mirror), some (_, first)) => rejectRepeated file mirror first

/-- The tables of the declarations that did not fail, as JSON. -/
def renderTablesOf (compilations : List Compilation) : Text :=
  Mapping.renderTables (compilations.filterMap (·.table))

end MirrorAdapter
