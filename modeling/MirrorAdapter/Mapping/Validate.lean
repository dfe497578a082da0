import MirrorAdapter.Mapping.Basic
import MirrorAdapter.Mapping.TypeSpelling
import MirrorAdapter.Repetition

/-!
# From specifications to tables

All checks run, whichever of them fail, and each report comes from one remote
type or one field. A table is made iff nothing was reported, and then it has
the header and the fields of the specification.
-/
namespace MirrorAdapter
namespace Mapping

/-- What a check can find wrong with a specification. -/
inductive Fault where
  | noRemoteType
  | repeatedRemoteType (spelling : Text) (first : Location)
  | getterOwnedAlone
  /-- A named converter that is no class. -/
  | converterNotAClass (converter value : Text)
  /-- A field type that should convert its counterpart and is no class. -/
  | fieldTypeNotAClass (source converter : Text)
deriving Repr, DecidableEq, Inhabited

namespace Fault

def kind : Fault → Diagnostic.Kind
  | .noRemoteType => .missingRemoteType
  | .repeatedRemoteType .. => .duplicateRemoteType
  | .getterOwnedAlone => .getterOwnedWithoutGetter
  | .converterNotAClass .. | .fieldTypeNotAClass .. => .ambiguousConversion

def message : Fault → Text
  | .noRemoteType =>
    "no remote type declared; add [[archive_with(from(RemoteType))]] to the type"
  | .repeatedRemoteType spelling first =>
    "remote type " ++ spelling.quoted ++ " is already listed (first at " ++
      first.render ++ ")"
  | .getterOwnedAlone => "'getter_owned' requires a 'getter'"
  | .converterNotAClass converter value =>
    "converter " ++ converter.quoted ++
      " is not a class type and cannot convert " ++ value.quoted
  | .fieldTypeNotAClass source converter =>
    "from(" ++ source ++ ") without via(...) makes the field type " ++
      converter.quoted ++
      " the converter, but it is not a class type; name a converter with via(...)"

def report (fault : Fault) (subject : Subject) (location : Location) :
    Diagnostic where
  severity := .error
  location := location
  message := subject.render ++ ": " ++ fault.message
  kind := fault.kind

end Fault

/-- No table could be made for the named mirror type. -/
structure ValidationError where
  mirror : Text
deriving Repr, DecidableEq, Inhabited

def ValidationError.message (e : ValidationError) : Text :=
  "validation failed for " ++ e.mirror.beforeNul

/-- What is wrong with the remote types. -/
def Header.faults (h : Header) : List (Fault × Location) :=
  let missing :=
    if h.remoteTypes.isEmpty then [(.noRemoteType, h.location)] else []
  let repeated :=
    (Repetition.repeats (TypeSpelling.key ·.spelling) h.remoteTypes).map
      fun (r, first) =>
    (.repeatedRemoteType r.spelling first.location, r.location)
  missing ++ repeated

/-- What is wrong with a field. -/
def Field.faults (f : Field) : List (Fault × Location) :=
  let owned :=
    if f.directives.getterOwned && f.directives.getter.isNone then
      [(.getterOwnedAlone, f.directives.getterOwnedLocation)]
    else []
  let source : Text := match f.directives.source with
    | some source => source.spelling
    | none => []
  let conversion :=
    match f.converter.kind, TypeSpelling.isNonClass f.converter.spelling with
    | .explicit, true =>
      [(.converterNotAClass f.converter.spelling f.valueType,
          f.converter.location)]
    | .mirrorSelf, true =>
      [(.fieldTypeNotAClass source f.converter.spelling, f.converter.location)]
    | _, _ => []
  owned ++ conversion

/-- How directives say a field is read. -/
def Access.ofDirectives (d : Directive.FieldDirectives) : Access :=
  match d.getter, d.getterOwned with
  | none, _ => .direct
  | some _, false => .getter
  | some _, true => .getterOwned

/-- A field that a getter reads cannot be set again. -/
def Entry.ofField (f : Field) : Entry where
  field := f
  access := .ofDirectives f.directives
  reconstructable := f.directives.getter.isNone

def Table.ofSpec (s : Spec) : Table where
  header := s.header
  entries := s.fields.map .ofField
  fullyReconstructable := s.fields.all (·.directives.getter.isNone)

/-- All reports on a specification, those on its remote types first. -/
def Spec.reports (s : Spec) : Log :=
  let name := s.header.qualifiedName
  s.header.faults.map
    (fun (fault, location) => fault.report (.mirror name) location) ++
    s.fields.flatMap fun f => f.faults.map
          fun (fault, location) => fault.report (.field name f.name) location

def Spec.validate (s : Spec) : Outcome ValidationError Table :=
  { result :=
      if s.reports.isEmpty then .ok (.ofSpec s)
      else .error ⟨s.header.qualifiedName⟩
    log := s.reports }

end Mapping
end MirrorAdapter
