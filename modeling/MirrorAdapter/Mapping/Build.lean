import MirrorAdapter.Mapping.Basic
import MirrorAdapter.Repetition

/-!
# From declarations to specifications

Field `i` of the declaration goes with entry `i` of its directives. A field
name may occur once.
-/
namespace MirrorAdapter
namespace Mapping

/-- The converter that directives choose for a field of the given type: a
named one, else the type itself where the counterpart has a type of its own,
else none. -/
def Converter.infer (type : Reference) (d : Directive.FieldDirectives) :
    Converter :=
  match d.via, d.source with
  | some via, _ =>
    { kind := .explicit, spelling := via.spelling,
      location := via.location }
  | none, some _ =>
    { kind := .mirrorSelf, spelling := type.spelling,
      location := type.location }
  | none, none => { kind := .identity, location := type.location }

inductive BuildError where
  /-- There is not one entry of directives for each field. -/
  | fieldCount (mirror : Text)
  | repeatedFields (mirror : Text)
deriving Repr, DecidableEq, Inhabited

def BuildError.message : BuildError → Text
  | .fieldCount mirror =>
    "directive model of " ++ mirror.beforeNul ++
      " does not match its field list"
  | .repeatedFields mirror =>
    "failed to build field mapping of " ++ mirror.beforeNul

def Header.ofMirror (file : Decl.File) (m : Decl.Mirror)
    (d : Directive.TypeDirectives) : Header where
  name := m.name
  location := m.location
  sourceFile := file.path
  scope := m.scope
  templateParams := m.templateParams.map (·.toTemplateParam)
  includes := file.includes.map (·.target)
  remoteTypes := d.remoteTypes

def Field.ofDecl (f : Decl.Field) (d : Directive.FieldDirectives) : Field where
  name := f.name
  location := f.location
  type := f.type
  directives := d
  converter := .infer f.type d

/-- The report of a field whose name was declared before. -/
def repeatedField (mirror : Text) (f first : Decl.Field) : Diagnostic where
  severity := .error
  location := f.location
  message :=
    (Subject.field mirror f.name).render ++
      ": duplicate field name (first declared at " ++
      first.location.render ++ ")"
  kind := .duplicateField

/-- The specification of a declaration with its directives. -/
def Spec.build (file : Decl.File) (m : Decl.Mirror)
    (model : Directive.Model) : Outcome BuildError Spec :=
  if model.fields.length ≠ m.fields.length then
    { result := .error (.fieldCount m.qualifiedName) }
  else
    let repeated := Repetition.repeats (·.name) m.fields
    { result :=
        if repeated.isEmpty then
          .ok
            { header := .ofMirror file m model.type
              fields := List.zipWith Field.ofDecl m.fields model.fields }
        else .error (.repeatedFields m.qualifiedName)
      log :=
        repeated.map fun (f, first) => repeatedField m.qualifiedName f first }

end Mapping
end MirrorAdapter
