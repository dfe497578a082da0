import MirrorAdapter.Text.Basic

/-!
# Slugs

A slug stands for a type in a file name: letters and digits of its spelling,
with one underscore for each stretch of anything else between them. Where
types of one list have the same slug, all but the first get a number.
-/
namespace MirrorAdapter
namespace Name

/-- The letters and digits of a text, with one underscore before each stretch
of other bytes that follows some letter or digit; `gap` says whether the last
byte written was such an underscore, as it counts at the start of the text. -/
def joinWords (gap : Bool) : Text → Text
  | [] => []
  | b :: rest =>
    if b.isAlphanumeric then b :: joinWords false rest
    else if gap then joinWords true rest
    else '_' :: joinWords true rest

/-- The text without underscores at its end. -/
def dropTrailing (s : Text) : Text :=
  (s.reverse.dropWhile fun b : Byte => b == '_').reverse

/-- The slug of a type; a spelling without letters and digits has the slug
`type`. -/
def slug (spelling : Text) : Text :=
  let words := dropTrailing (joinWords true spelling)
  if words.isEmpty then "type" else words

/-- The `n`-th name to try for a slug: the slug itself, then the slug numbered
from two on. -/
def numbered (base : Text) : Nat → Text
  | 0 => base
  | n + 1 => base ++ "_" ++ Text.decimal (n + 2)

/-- The first of these names that is not taken. Among one name more than are
taken there is always one. -/
def free (taken : List Text) (base : Text) : Text :=
  let names := (List.range (taken.length + 1)).map (numbered base)
  (names.find? fun name => !taken.contains name).getD base

/-- The names for a list of types, where `taken` are in use already. -/
def distinctSlugsFrom (taken : List Text) : List Text → List Text
  | [] => []
  | spelling :: rest =>
    let name := free taken (slug spelling)
    name :: distinctSlugsFrom (name :: taken) rest

/-- A name of its own for each type of a list. -/
def distinctSlugs (spellings : List Text) : List Text :=
  distinctSlugsFrom [] spellings

end Name
end MirrorAdapter
