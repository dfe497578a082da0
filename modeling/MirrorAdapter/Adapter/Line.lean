import MirrorAdapter.Text.Basic

/-!
# Generated lines

Generated headers are built line by line. A level of indentation is four
blanks; an empty line has none.
-/
namespace MirrorAdapter
namespace Adapter

structure Line where
  level : Nat := 0
  text : Text
deriving Repr, DecidableEq, Inhabited

namespace Line

/-- A line at a level of indentation. -/
def of (level : Nat) (text : Text) : Line := { level, text }

def blank : Line := { text := [] }

def render (l : Line) : Text :=
  let indentation : Text :=
    if l.text.isEmpty then [] else List.replicate (4 * l.level) 32
  indentation ++ l.text ++ "\n"

/-- The text of lines in order. -/
def renderAll (lines : List Line) : Text := lines.flatMap render

theorem renderAll_append (a b : List Line) :
    renderAll (a ++ b) = renderAll a ++ renderAll b :=
  List.flatMap_append

end Line
end Adapter
end MirrorAdapter
