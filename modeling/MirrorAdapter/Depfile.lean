import MirrorAdapter.Text.Order

/-!
# Dependency files

One rule in the syntax of make: the target, a colon, and the paths it is made
from. What make would not read as part of a path is escaped; a line feed
cannot be.
-/
namespace MirrorAdapter
namespace Depfile

/-- The bytes that a backslash protects. -/
def isSpecial (b : Byte) : Bool :=
  b == '\\' || b == ' ' || b == '\t' || b == '#' || b == ':'

def escape (b : Byte) : Text :=
  if b = '$' then [b, b] else if isSpecial b then ['\\', b] else [b]

/-- A path as it is written in a rule. -/
def escaped (path : Text) : Text := path.flatMap escape

/-- A dependency as it follows the colon or another dependency. -/
def listed (dependency : Text) : Text := " " ++ escaped dependency

/-- The rule that makes a target from its dependencies, which are listed once
each in increasing order. -/
def render (target : Text) (dependencies : List Text) : Text :=
  escaped target ++ ":" ++ (Text.sortedSet dependencies).flatMap listed ++ "\n"

end Depfile
end MirrorAdapter
