import MirrorAdapter.Adapter.Line
import MirrorAdapter.Mapping.Basic
import MirrorAdapter.Name.Guard
import MirrorAdapter.Name.Slug
import MirrorAdapter.Support

/-!
# Layout of generated headers

Where the headers of a mirror type lie, what the generated types are called,
and what every header begins and ends with. Paths are relative to the output
directory and have one directory for each namespace.
-/
namespace MirrorAdapter
namespace Adapter

open Mapping (Header Field)

/-- A generated file: its path below the output directory and its content. -/
structure Artifact where
  path : Text
  content : Text
deriving Repr, DecidableEq, Inhabited

/-- The header all generated code relies on, beside the generated ones. -/
def runtimeName : Text := "archwith_runtime.hpp"

/-- The directory of a namespace, with a slash at its end unless it is the
output directory. -/
def directory (scope : List Text) : Text := Text.terminated "/" scope

/-- The path of the header of a mirror type with the given name ending. -/
def headerPath (scope : List Text) (name ending : Text) : Text :=
  directory scope ++ name ++ "." ++ ending

/-- The header that includes all others of a mirror type. -/
def umbrellaPath (scope : List Text) (name : Text) : Text :=
  headerPath scope name "hpp"

/-- The header that declares the archived form. -/
def reprPath (h : Header) : Text := headerPath h.scope h.name "repr.hpp"

/-- A remote type with the name it has in paths. -/
structure RemoteName where
  type : Text
  slug : Text
deriving Repr, DecidableEq, Inhabited

def remoteNames (h : Header) : List RemoteName :=
  let types := h.remoteTypes.map (·.spelling)
  List.zipWith RemoteName.mk types (Name.distinctSlugs types)

def archivedName (h : Header) : Text := "Archived" ++ h.name

def resolverName (h : Header) : Text := h.name ++ "Resolver"

def archivedReference (h : Header) : Text := h.sibling (archivedName h)

def resolverReference (h : Header) : Text := h.sibling (resolverName h)

/-- The template clause of the generated types; there is none without template
parameters. -/
def templateHead (h : Header) : Option Text :=
  if h.templateParams.isEmpty then none
  else some ("template <" ++
    Text.join ", " (h.templateParams.map (·.declaration)) ++ ">")

/-- The template clause of a specialization for the mirror type. -/
def specializationHead (h : Header) : Text :=
  (templateHead h).getD "template <>"

/-- The type of a field, taken from the mirror type itself. -/
def memberType (h : Header) (f : Field) : Text :=
  "decltype(" ++ h.typeReference ++ "::" ++ f.name ++ ")"

/-- The type of a field as generated code names it. -/
def valueTypeName (h : Header) (f : Field) : Text :=
  match f.directives.source with
  | some source => source.spelling
  | none => memberType h f

/-- The converter of a field as generated code names it. -/
def converterName (h : Header) (f : Field) : Text :=
  match f.converter.kind with
  | .identity => "::archwith::rt::Identity"
  | .mirrorSelf => memberType h f
  | .explicit => f.converter.spelling

/-- The include guard of a header of the mirror type. -/
def guardName (h : Header) (parts : List Text) : Text :=
  Name.guard (h.scope ++ h.name :: parts)

/-- What a header begins with. Of its source only the file name is shown, so
that generated bytes do not depend on where the sources lie. -/
def prologue [Support] (h : Header) (guard : Text) : List Line :=
  [ Line.of 0 ("// Generated by archwithc from " ++
      Support.fileName h.sourceFile ++ ". Do not edit.")
  , Line.of 0 ("// Mirror type: " ++ h.qualifiedName)
  , Line.blank
  , Line.of 0 ("#ifndef " ++ guard)
  , Line.of 0 ("#define " ++ guard)
  , Line.blank ]

def epilogue (guard : Text) : List Line :=
  [Line.blank, Line.of 0 ("#endif  // " ++ guard)]

/-- An include line for another generated header. -/
def includeLine (path : Text) : Line :=
  Line.of 0 ("#include \"" ++ path ++ "\"")

end Adapter
end MirrorAdapter
