import MirrorAdapter.Proofs.Checks.Outcomes

/-!
# Names of fields

A declaration has a specification iff no field name occurs in it twice. Then
each field stands there together with the entry of directives at its own
position. Otherwise each field whose name occurs before it is reported, and
the report leads to the first field of that name, however many there are in
between.
-/
namespace MirrorAdapter

/-- What a message ends with where it leads to another place. -/
def Location.pointer (words : Text) (l : Location) : Text :=
  "(" ++ words ++ " at " ++ l.render ++ ")"

namespace Mapping

open Decl (File Mirror)
open Repetition (repeatPositions)

/-! ## Repeated names -/

/-- The report stands at the location and speaks of the subject. -/
structure Concerns (subject : Subject) (location : Location)
    (d : Diagnostic) : Prop where
  severity : d.severity = .error
  location : d.location = location
  subject : subject.render <+: d.message

/-- The report stands at the field and says that `first` has its name. -/
structure SaysRepeated (mirror : Text) (f first : Decl.Field) (d : Diagnostic) :
    Prop extends Concerns (.field mirror f.name) f.location d where
  kind : d.kind = .duplicateField
  leads : first.location.pointer "first declared" <:+ d.message

theorem saysRepeated_repeatedField (mirror : Text) (f first : Decl.Field) :
    SaysRepeated mirror f first (repeatedField mirror f first) where
  severity := rfl
  kind := rfl
  location := rfl
  subject := by
    simp only [repeatedField, List.append_assoc]
    exact List.prefix_append _ _
  leads := by
    refine ⟨(Subject.field mirror f.name).render ++ ": duplicate field name ",
      ?_⟩
    simp [repeatedField, Location.pointer, Text.ofString]

theorem log_build (file : File) {m : Mirror} {model : Directive.Model}
    (length : model.fields.length = m.fields.length) :
    (Spec.build file m model).log = (Repetition.repeats (·.name) m.fields).map
        fun pair => repeatedField m.qualifiedName pair.1 pair.2 := by
  rw [Spec.build, if_neg (not_not_intro length)]

/-! ## Fields and their directives -/

/-- The field of a specification is the declared field with its directives,
and they choose its converter. -/
structure Field.Pairs (f : Decl.Field) (d : Directive.FieldDirectives)
    (g : Field) : Prop where
  name : g.name = f.name
  location : g.location = f.location
  type : g.type = f.type
  directives : g.directives = d
  explicit : ∀ via, d.via = some via → g.converter =
    { kind := .explicit
      spelling := via.spelling
      location := via.location }
  mirrorSelf :
    ∀ source, d.via = none → d.source = some source → g.converter =
      { kind := .mirrorSelf
        spelling := f.type.spelling
        location := f.type.location }
  identity : d.via = none → d.source = none →
    g.converter = { kind := .identity, location := f.type.location }

theorem Field.pairs_ofDecl (f : Decl.Field) (d : Directive.FieldDirectives) :
    Field.Pairs f d (.ofDecl f d) where
  name := rfl
  location := rfl
  type := rfl
  directives := rfl
  explicit := by
    intro via named
    simp [ofDecl, Converter.infer, named]
  mirrorSelf := by
    intro source unnamed typed
    simp [ofDecl, Converter.infer, unnamed, typed]
  identity := by
    intro unnamed untyped
    simp [ofDecl, Converter.infer, unnamed, untyped]

/-- With one entry of directives for each field, what is reported are the
fields whose names occur before them, one report for each, and a specification
is made iff there are none; it has field `i` with entry `i`. -/
theorem fields_paired (file : File) (m : Mirror) (model : Directive.Model)
    (length : model.fields.length = m.fields.length) :
    List.Forall₂ (fun j d => ∃ f first, m.fields[j]? = some f ∧
            m.fields.find? (·.name == f.name) = some first ∧
            SaysRepeated m.qualifiedName f first d)
      (repeatPositions (m.fields.map (·.name))) (Spec.build file m model).log ∧
    ((∃ s, (Spec.build file m model).result = .ok s) ↔
      (m.fields.map (·.name)).Nodup) ∧
    ∀ s : Spec, (Spec.build file m model).result = .ok s →
      s.fields.length = m.fields.length ∧
      ∀ (i : Nat) f d, m.fields[i]? = some f → model.fields[i]? = some d →
        ∃ g, s.fields[i]? = some g ∧ Field.Pairs f d g := by
  refine ⟨?reports, ?sound, ?fields⟩
  case reports =>
    rw [log_build file length, List.forall₂_map_right_iff]
    refine (Repetition.forall₂_repeats (·.name) m.fields).imp ?_
    rintro j ⟨f, first⟩ ⟨here, found⟩
    exact ⟨f, first, here, found, saysRepeated_repeatedField _ f first⟩
  case sound =>
    simp only [result_build length]
    exact ⟨fun ⟨_, distinct, _⟩ => distinct, fun distinct => ⟨_, distinct, rfl⟩⟩
  case fields =>
    intro s built
    obtain ⟨-, rfl⟩ := (result_build length s).mp built
    refine ⟨by simp [length], fun i f d declared directed => ?_⟩
    refine ⟨.ofDecl f d, ?_, Field.pairs_ofDecl f d⟩
    rw [List.getElem?_zipWith, declared, directed]

/-- A declaration in which two names occur more than once, one of them three
times. -/
def threeRepeats : Mirror where
  name := "M"
  location := .start "f.mirror"
  fields := (["a", "b", "a", "c", "b", "a"].zipIdx 2).map fun (name, line) =>
    { name := Text.ofString name
      location := ⟨"f.mirror", ⟨.ofNat line, 5⟩⟩
      type := { spelling := "int" } }

/-- An entry without directives for each of its fields. -/
def noDirectives : Directive.Model where
  type := { location := .start "f.mirror" }
  fields := threeRepeats.fields.map fun _ => {}

theorem fields_paired_threeRepeats :
    noDirectives.fields.length = threeRepeats.fields.length ∧
    (¬∃ s,
      (Spec.build ⟨"f.mirror", [], [threeRepeats]⟩
          threeRepeats noDirectives).result = .ok s) ∧
    List.Forall₂ (fun j d => ∃ f first, threeRepeats.fields[j]? = some f ∧
            threeRepeats.fields.find? (·.name == f.name) = some first ∧
            SaysRepeated "M" f first d)
      [2, 4, 5] (Spec.build ⟨"f.mirror", [], [threeRepeats]⟩ threeRepeats
          noDirectives).log := by
  have length : noDirectives.fields.length = threeRepeats.fields.length := rfl
  obtain ⟨reports, sound, -⟩ :=
    fields_paired ⟨"f.mirror", [], [threeRepeats]⟩ threeRepeats
      noDirectives length
  refine ⟨length, ?_, ?_⟩
  · rw [sound]
    decide
  · have positions :
        repeatPositions (threeRepeats.fields.map (·.name)) = [2, 4, 5] := by
      decide
    rw [positions] at reports
    exact reports

end Mapping
end MirrorAdapter
