import MirrorAdapter.Adapter.Index
import MirrorAdapter.Adapter.Member
import MirrorAdapter.Text.Order

/-!
# The header of the archived form

Declares the mirror type, its archived form and its resolver, one member for
each field in each. It includes what the mirror file includes and the headers
of other mirror types that take part as converters.
-/
namespace MirrorAdapter
namespace Adapter

open Mapping (Header Entry Table)

variable [Support]

/-- The spellings of a field that may name a mirror type acting as
converter. -/
def converterSpellings (e : Entry) : List Text :=
  e.field.type.spelling ::
    match e.field.converter.kind with
    | .explicit => [e.field.converter.spelling]
    | _ => []

/-- The headers of other mirror types among the converters of a table, in
increasing order. -/
def converterHeaders (t : Table) (index : Index) : List Text :=
  let self := umbrellaPath t.header.scope t.header.name
  let found :=
    (t.entries.flatMap converterSpellings).filterMap fun spelling =>
    (index.lookup spelling t.header.scope).map (·.umbrella)
  Text.sortedSet (found.filter (· != self))

/-- The namespace of the mirror type as a namespace block names it. Components
that are empty count only behind one that is not. -/
def namespacePath (h : Header) : Text :=
  Text.join "::" (h.scope.dropWhile List.isEmpty)

/-- The namespace of the mirror type around its declarations. -/
def inNamespace (h : Header) (lines : List Line) : List Line :=
  if h.scope.isEmpty then lines
  else
    let path := namespacePath h
    [Line.of 0 ("namespace " ++ path), Line.of 0 "\x7b", Line.blank] ++
      lines ++ [Line.blank, Line.of 0 ("\x7d  // namespace " ++ path)]

/-- The declaration of a struct with one line for each member. -/
def structLines (h : Header) (name : Text) (memberLines : List Text) :
    List Line :=
  (templateHead h).toList.map (Line.of 0) ++
    [Line.of 0 ("struct " ++ name), Line.of 0 "\x7b"] ++
    memberLines.map (Line.of 1) ++ [Line.of 0 "\x7d;"]

def mirrorMember (e : Entry) : Text :=
  e.field.type.spelling ++ " " ++ e.field.name ++ ";"

def archivedMember (m : Member) : Text :=
  "::archwith::rt::ArchivedWith" ++ m.arguments ++ " " ++ m.name ++ ";"

def resolverMember (m : Member) : Text :=
  "::archwith::rt::ResolverWith" ++ m.arguments ++ " " ++ m.name ++ ";"

def reprLines (t : Table) (index : Index) : List Line :=
  let h := t.header
  let guard := guardName h ["repr"]
  prologue h guard ++ [includeLine runtimeName] ++
    h.includes.map (fun target => Line.of 0 ("#include " ++ target)) ++
    (converterHeaders t index).map includeLine ++ [Line.blank] ++
    inNamespace h ( structLines h h.name (t.entries.map mirrorMember) ++
      [Line.blank, Line.of 0 ("/// Archived form of " ++ h.name ++ ".")] ++
      structLines h (archivedName h) ((members t).map archivedMember) ++
      [Line.blank, Line.of 0
          ("/// Resolver state produced by serializing " ++ h.name ++ ".")] ++
      structLines h (resolverName h) ((members t).map resolverMember)) ++
    epilogue guard

def reprHeader (t : Table) (index : Index) : Artifact :=
  ⟨reprPath t.header, Line.renderAll (reprLines t index)⟩

end Adapter
end MirrorAdapter
