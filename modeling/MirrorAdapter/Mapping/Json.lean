import MirrorAdapter.Json.Printer
import MirrorAdapter.Mapping.Basic
import MirrorAdapter.Support

/-!
# Tables as JSON

The form in which other tools read mapping tables. What a field does not have
is left out. Texts from the sources are put into it the way the support
library does it; keys and the words of the form are texts that it leaves as
they are.
-/
namespace MirrorAdapter

variable [Support]

/-- A text from the sources. -/
def JsonValue.source (s : Text) : JsonValue := .string (Support.jsonString s)

def Location.toJson (l : Location) : JsonValue :=
  .sortedObject [("file", .source l.file), ("line", .natural l.line.toNat),
    ("column", .natural l.column.toNat)]

namespace Mapping

/-- The version of the form. -/
def schemaVersion : Nat := 1

def Converter.toJson (c : Converter) : JsonValue :=
  .sortedObject
    [("kind", .string c.kind.name), ("spelling", .source c.spelling)]

/-- A member for a reference that may be absent. -/
def optionalMember (key : Text) (r : Option Reference) :
    List (Text × JsonValue) :=
  match r with
  | none => []
  | some r => [(key, .source r.spelling)]

def Entry.toJson (e : Entry) : JsonValue :=
  let owned : List (Text × JsonValue) :=
    if e.field.directives.getter.isSome then
      [("getter_owned", .bool e.field.directives.getterOwned)]
    else []
  let always : List (Text × JsonValue) :=
    [ ("name", .source e.field.name)
    , ("location", e.field.location.toJson)
    , ("mirror_type", .source e.field.type.spelling)
    , ("value_type", .source e.field.valueType)
    , ("converter", e.field.converter.toJson)
    , ("access", .string e.access.name)
    , ("reconstructable", .bool e.reconstructable) ]
  .sortedObject (always ++ optionalMember "from" e.field.directives.source ++
    optionalMember "via" e.field.directives.via ++
    optionalMember "getter" e.field.directives.getter ++ owned)

def Table.toJson (t : Table) : JsonValue :=
  .sortedObject
    [ ("name", .source t.header.qualifiedName)
    , ("source_file", .source t.header.sourceFile)
    , ("location", t.header.location.toJson)
    , ("template_params",
        .array (t.header.templateParams.map fun p => .source p.declaration))
    , ("remote_types",
        .array (t.header.remoteTypes.map fun r => .source r.spelling))
    , ("fully_reconstructable", .bool t.fullyReconstructable)
    , ("fields", .array (t.entries.map Entry.toJson)) ]

/-- The text for a list of tables. -/
def renderTables (tables : List Table) : Text :=
  JsonValue.render 0
    (.sortedObject
      [ ("schema_version", .natural schemaVersion)
      , ("mirrors", .array (tables.map Table.toJson)) ]) ++ "\n"

end Mapping
end MirrorAdapter
