import MirrorAdapter.Adapter.Archive
import MirrorAdapter.Diagnostic

/-!
# The header that rebuilds remote values

One specialization for each remote type. It can only be derived where every
field can be set, that is, where no getter is used; otherwise a note says
which fields stand in the way.
-/
namespace MirrorAdapter
namespace Adapter

open Mapping (Header Table)

variable [Support]

/-- The statement that reads one member from the archived form. -/
def deserializeStatement (m : Member) : Text :=
  m.value ++ " " ++ m.localValue ++ " = DeserializeWith" ++ m.arguments ++
    "::deserializeWith(archived." ++ m.name ++ ", deserializer);"

/-- The statement that sets one member. Members are set by name, so their
order in the remote type does not matter. -/
def assignStatement (m : Member) : Text :=
  "remote." ++ m.name ++ " = std::move(" ++ m.localValue ++ ");"

def deserializeBody (remote : Text) (ms : List Member) : List Text :=
  if ms.isEmpty then
    unused ["archived", "deserializer"] ++ ["return " ++ remote ++ "\x7b\x7d;"]
  else
    ms.map deserializeStatement ++ [remote ++ " remote\x7b\x7d;"] ++
      ms.map assignStatement ++ [Text.ofString "return remote;"]

/-- The specialization for a remote type. -/
def rebuildLines (t : Table) (remote : Text) : List Line :=
  let h := t.header
  [ Line.of 0 ("/// Rebuilds " ++ remote ++ " from the archived form of " ++
      h.typeReference ++ ".")
  , Line.of 0 (specializationHead h)
  , Line.of 0
      ("struct DeserializeWith<" ++ h.typeReference ++ ", " ++ remote ++ ">")
  , Line.of 0 "\x7b"
  , Line.of 1 "template <typename Deserializer>"
  , Line.of 1 ("static " ++ remote ++ " deserializeWith(const " ++
      archivedReference h ++ "& archived, Deserializer& deserializer)")
  , Line.of 1 "\x7b" ] ++
    (deserializeBody remote (members t)).map (Line.of 2) ++
    [Line.of 1 "\x7d", Line.of 0 "\x7d;"]

def deserializeLines (t : Table) : List Line :=
  let h := t.header
  let guard := guardName h ["deserialize"]
  prologue h guard ++
    [includeLine (reprPath h), Line.blank,
      Line.of 0 "#include <utility>", Line.blank] ++
    openRuntime ++ h.remoteTypes.flatMap
      (fun remote => Line.blank :: rebuildLines t remote.spelling) ++
    closeRuntime ++ epilogue guard

/-- The note that no header can be derived because of the fields that getters
read. -/
def notDerived (t : Table) : Diagnostic :=
  let h := t.header
  let fields :=
    (t.entries.filter (!·.reconstructable)).map fun e => e.field.name.quoted
  { severity := .note
    location := h.location
    message :=
      (Subject.mirror h.qualifiedName).render ++
        ": deserialization is not derived because field(s) " ++
        Text.join ", " fields ++ " use a getter; provide DeserializeWith<" ++
        h.typeReference ++ ", Remote> by hand"
    kind := .notReconstructable }

/-- The header, or the note in its place. -/
def deserializeHeader (t : Table) : Except Diagnostic Artifact :=
  if t.fullyReconstructable then
    .ok ⟨headerPath t.header.scope t.header.name "deserialize.hpp",
      Line.renderAll (deserializeLines t)⟩
  else .error (notDerived t)

end Adapter
end MirrorAdapter
