import MirrorAdapter.Adapter.Layout

/-!
# The header that includes all others

The one header of a mirror type that its users include.
-/
namespace MirrorAdapter
namespace Adapter

open Mapping (Table)

variable [Support]

def umbrellaLines (t : Table) (headers : List Artifact) : List Line :=
  let guard := guardName t.header []
  prologue t.header guard ++ headers.map (fun a => includeLine a.path) ++
    epilogue guard

/-- Includes the given headers in order. -/
def umbrellaHeader (t : Table) (headers : List Artifact) : Artifact :=
  ⟨umbrellaPath t.header.scope t.header.name,
    Line.renderAll (umbrellaLines t headers)⟩

end Adapter
end MirrorAdapter
