import MirrorAdapter.Adapter.Member

/-!
# Headers that archive a remote type

One header for each remote type, with two specializations: one builds the
archived form in place, one serializes. Both read the members of a remote
value in order.
-/
namespace MirrorAdapter
namespace Adapter

open Mapping (Header Table)

variable [Support]

/-- Statements that leave parameters unused without a warning. -/
def unused (names : List Text) : List Text :=
  names.map fun name => "(void) " ++ name ++ ";"

/-- The statements that build one member. -/
def buildStatements (remote : Text) (m : Member) : List Text :=
  [ m.binding remote
  , "ArchiveWith" ++ m.arguments ++ "::resolveWith(" ++
      m.localValue ++ ", pos + memberOffset(out, &out->" ++ m.name ++
      "), std::move(resolver." ++ m.name ++ "), &out->" ++ m.name ++ ");" ]

/-- The statements that serialize one member. -/
def serializeStatements (remote : Text) (m : Member) : List Text :=
  [ m.binding remote
  , "auto " ++ m.localResolver ++ " = SerializeWith" ++ m.arguments ++
      "::serializeWith(" ++ m.localValue ++ ", serializer);" ]

/-- The statement that returns the resolvers of all members. -/
def returnResolver (resolver : Text) (ms : List Member) : Text :=
  "return " ++ resolver ++ "\x7b" ++
    Text.join ", " (ms.map fun m => "std::move(" ++ m.localResolver ++ ")") ++
    "\x7d;"

def buildBody (remote : Text) (ms : List Member) : List Text :=
  if ms.isEmpty then unused ["remote", "pos", "resolver", "out"]
  else ms.flatMap (buildStatements remote)

def serializeBody (resolver remote : Text) (ms : List Member) : List Text :=
  if ms.isEmpty then
    unused ["remote", "serializer"] ++ ["return " ++ resolver ++ "\x7b\x7d;"]
  else ms.flatMap (serializeStatements remote) ++ [returnResolver resolver ms]

/-- The specialization that builds the archived form. -/
def buildLines (t : Table) (remote : Text) : List Line :=
  let h := t.header
  [ Line.of 0 ("/// Builds the archived form of " ++ remote ++ " with " ++
      h.typeReference ++ " as converter.")
  , Line.of 0 (specializationHead h)
  , Line.of 0
      ("struct ArchiveWith<" ++ h.typeReference ++ ", " ++ remote ++ ">")
  , Line.of 0 "\x7b"
  , Line.of 1 ("using Archived = " ++ archivedReference h ++ ";")
  , Line.of 1 ("using Resolver = " ++ resolverReference h ++ ";")
  , Line.blank
  , Line.of 1 ("static void resolveWith(const " ++ remote ++
      "& remote, std::size_t pos, Resolver resolver, Archived* out)")
  , Line.of 1 "\x7b" ] ++
    (buildBody remote (members t)).map (Line.of 2) ++
    [Line.of 1 "\x7d", Line.of 0 "\x7d;"]

/-- The specialization that serializes. -/
def serializeLines (t : Table) (remote : Text) : List Line :=
  let h := t.header
  [ Line.of 0 ("/// Serializes " ++ remote ++ " with " ++ h.typeReference ++
      " as converter.")
  , Line.of 0 (specializationHead h)
  , Line.of 0
      ("struct SerializeWith<" ++ h.typeReference ++ ", " ++ remote ++ ">")
  , Line.of 0 "\x7b"
  , Line.of 1 "template <typename Serializer>"
  , Line.of 1 ("static " ++ resolverReference h ++ " serializeWith(const " ++
      remote ++ "& remote, Serializer& serializer)")
  , Line.of 1 "\x7b" ] ++
    (serializeBody (resolverReference h) remote (members t)).map (Line.of 2) ++
    [Line.of 1 "\x7d", Line.of 0 "\x7d;"]

/-- The namespace of the library that generated code specializes. -/
def openRuntime : List Line :=
  [Line.of 0 "namespace archwith", Line.of 0 "\x7b",
    Line.of 0 "namespace rt", Line.of 0 "\x7b"]

def closeRuntime : List Line :=
  [Line.blank, Line.of 0 "\x7d  // namespace rt",
    Line.of 0 "\x7d  // namespace archwith"]

def archiveLines (t : Table) (remote : RemoteName) : List Line :=
  let h := t.header
  let guard := guardName h ["archive", remote.slug]
  prologue h guard ++
    [ Line.of 0 "#include <cstddef>"
    , Line.of 0 "#include <functional>"
    , Line.of 0 "#include <utility>"
    , Line.blank
    , includeLine (reprPath h)
    , Line.blank ] ++
    openRuntime ++ [Line.blank] ++
    buildLines t remote.type ++ [Line.blank] ++
    serializeLines t remote.type ++
    closeRuntime ++ epilogue guard

def archiveHeader (t : Table) (remote : RemoteName) : Artifact :=
  ⟨headerPath t.header.scope t.header.name
      ("archive." ++ remote.slug ++ ".hpp"),
    Line.renderAll (archiveLines t remote)⟩

/-- The headers for all remote types, in order. -/
def archiveHeaders (t : Table) : List Artifact :=
  (remoteNames t.header).map (archiveHeader t)

end Adapter
end MirrorAdapter
