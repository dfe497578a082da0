import MirrorAdapter.Text.Basic

/-!
# Paths

Paths as texts: names separated by slashes, absolute if they start with one.
Nothing here looks at a file system, so `..` undoes the name before it even
where that name is no directory. A normal path has no `.`, no empty name, and
a `..` only at its start; a path that named a directory by `.`, `..` or a
final slash still ends with a slash. A path of slashes alone is a root as it
stands, and paths seen from it start with all of them.
-/
namespace MirrorAdapter

/-- A path as it is written. -/
abbrev Path := Text

namespace Path

/-- The stretches between slashes; there is one more of them than there are
slashes. -/
def parts : Path → List Text
  | [] => [[]]
  | b :: rest =>
    if b = '/' then [] :: parts rest
    else
      match parts rest with
      | [] => [[b]]
      | part :: others => (b :: part) :: others

def isAbsolute (p : Path) : Bool := p.head? == some '/'

/-- Whether a path has no name in it: it is empty or consists of slashes. -/
def isNameless (p : Path) : Bool := p.all fun b : Byte => b == '/'

/-- The root that a path starts from, as it is written in a normal path; empty
if there is none. -/
def root (p : Path) : Path :=
  if p.isNameless then p else if p.isAbsolute then "/" else []

/-- What follows the last slash. -/
def fileName (p : Path) : Text :=
  (p.reverse.takeWhile fun b : Byte => b != '/').reverse

/-- The path without the slashes at its end. -/
def dropSlashes (p : Path) : Path :=
  (p.reverse.dropWhile fun b : Byte => b == '/').reverse

/-- The path up to its last slash, which is kept. -/
def dropFileName (p : Path) : Path :=
  (p.reverse.dropWhile fun b : Byte => b != '/').reverse

/-- The directory a path lies in, as far as the path tells: empty for a single
name. A final slash counts as an empty name, and a path without names is its
own parent. -/
def parent (p : Path) : Path :=
  if p.isNameless then p
  else
    let directory := dropFileName p
    let short := dropSlashes directory
    if short.isEmpty && !directory.isEmpty then "/" else short

/-- The second path as seen from the directory that the first one names. -/
def join (base p : Path) : Path :=
  if isAbsolute p || base.isEmpty then p
  else if base.getLast? == some '/' then base ++ p
  else base ++ "/" ++ p

/-- The path as seen from a working directory; the empty path stays empty. -/
def absolute (working p : Path) : Path :=
  if p.isEmpty then p else join working p

/-- The name of the directory itself, and that of its parent. -/
def isDots (name : Text) : Bool :=
  name == Text.ofString "." || name == Text.ofString ".."

/-- Whether a file name ends with the given extension and has something before
it. -/
def hasExtension (extension name : Text) : Bool :=
  extension.isSuffixOf name && decide (extension.length < name.length)

/-- A normal path under construction. -/
structure Trail where
  /-- The names so far, innermost first. -/
  names : List Text := []
  /-- Whether a slash follows the innermost name. -/
  directory : Bool := false
deriving Repr, DecidableEq, Inhabited

namespace Trail

/-- The trail after one more part of a path. -/
def step (rooted : Bool) (t : Trail) (part : Text) : Trail :=
  if part = [] ∨ part = Text.ofString "." then { t with directory := true }
  else if part = Text.ofString ".." then
    match t.names with
    | [] => if rooted then t else ⟨[part], false⟩
    | name :: outer =>
      if name = part then ⟨part :: name :: outer, false⟩ else ⟨outer, true⟩
  else ⟨part :: t.names, false⟩

/-- Whether the innermost name is one that a slash may follow. -/
def endsWithName (t : Trail) : Bool :=
  match t.names with
  | [] => false
  | name :: _ => name != Text.ofString ".."

/-- The path below a root. Where there is neither a root nor a name, it is the
directory itself. -/
def render (root : Path) (t : Trail) : Path :=
  let slash : Text := if t.directory && t.endsWithName then "/" else []
  if root.isEmpty && t.names.isEmpty then "."
  else root ++ Text.join "/" t.names.reverse ++ slash

end Trail

/-- The normal form that the parts of a path have below a root. -/
def normalizeBelow (root p : Path) : Path :=
  (p.parts.foldl (Trail.step (!root.isEmpty)) {}).render root

/-- The normal form of a path; the empty path stays empty. -/
def normalize (p : Path) : Path :=
  if p.isEmpty then p else normalizeBelow p.root p

/-- The normal form of the second path as seen from the directory that the
first one names. It keeps the root of that directory as it is written. -/
def normalizeFrom (base p : Path) : Path :=
  if isAbsolute p || base.isEmpty then normalize p
  else normalizeBelow base.root (join base p)

/-- The normal form of the path as seen from a working directory. -/
def resolved (working p : Path) : Path := normalize (absolute working p)

theorem parts_ne_nil (p : Path) : p.parts ≠ [] := by
  cases p with
  | nil => simp [parts]
  | cons b rest =>
    simp only [parts]
    split
    · simp
    · split <;> simp

end Path
end MirrorAdapter
