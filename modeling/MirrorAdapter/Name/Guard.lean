import MirrorAdapter.Text.Basic

/-!
# Include guards

The macro that keeps a header from being read twice is made of the parts of
the header's name.
-/
namespace MirrorAdapter
namespace Name

/-- A byte as it stands in a macro: an upper-case letter, a digit, or an
underscore for anything else. -/
def guardByte (b : Byte) : Byte := if b.isAlphanumeric then b.toUpper else '_'

/-- Each part with an underscore before it. -/
def guardParts (parts : List Text) : Text := parts.flatMap ("_" ++ ·)

/-- The macro for a header whose name has the given parts. -/
def guard (parts : List Text) : Text :=
  ("ARCHWITH_GENERATED" ++ guardParts parts ++ "_HPP").map guardByte

end Name
end MirrorAdapter
