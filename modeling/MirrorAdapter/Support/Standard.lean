import MirrorAdapter.Json.Reader
import MirrorAdapter.Support
import MirrorAdapter.Text.Utf8

/-!
# A support library

The one that the program runs with. The last component of a path is what
follows its last slash, but for a path that ends with a slash and for the root
of a network, which is a name behind two slashes. JSON values hold texts in
UTF-8, and so do JSON texts.
-/
namespace MirrorAdapter

namespace Path

/-- Whether a path is a name behind two slashes. -/
def isNetworkRoot (p : Path) : Bool :=
  !(fileName p).isEmpty && p == Text.ofString "//" ++ fileName p

/-- The last component of a path. A slash at the end of a path stands for the
directory itself, unless it belongs to a root. -/
def lastComponent (p : Path) : Text :=
  if p.isEmpty then []
  else if (fileName p).isEmpty then
    if p.isNameless || isNetworkRoot (dropSlashes p) then "/" else "."
  else if isNetworkRoot p then p
  else fileName p

theorem lastComponent_eq_fileName {p : Path} (named : fileName p ≠ [])
    (inside : isNetworkRoot p = false) : lastComponent p = fileName p := by
  have nonempty : p ≠ [] := by
    rintro rfl
    exact named rfl
  simp [lastComponent, nonempty, named, inside]

example :
    ["in.mirror", "/d/in.mirror", "//in.mirror", "a/", "/"].map
      (fun p => lastComponent (Text.ofString p)) =
      ["in.mirror", "in.mirror", "//in.mirror", ".", "/"].map
        Text.ofString := by
  decide

end Path

namespace Support
namespace Standard

/-- The value of a JSON text in UTF-8. -/
def parseJson (s : Text) : Except Text JsonValue :=
  match JsonValue.parse? s with
  | some v => if s.isUtf8 then .ok v else .error "not in UTF-8"
  | none => .error "not a JSON text"

scoped instance library : Support where
  fileName := Path.lastComponent
  jsonString := Text.repaired
  parseJson := parseJson

end Standard
end Support
end MirrorAdapter
