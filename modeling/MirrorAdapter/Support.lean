import MirrorAdapter.Json.Basic
import MirrorAdapter.Path

/-!
# The support library

Three functions are not the compiler's own but come with the library that it
is built on: how a path is named by its last component, how a text is put into
a JSON value, and how a JSON text is read. What is said of the compiler holds
whatever they do, unless something is assumed of them.
-/
namespace MirrorAdapter

/-- What the compiler takes from its support library. It is inferred like an
instance, so that what does not depend on it does not mention it. -/
class Support where
  /-- The last component of a path. -/
  fileName : Path → Text
  /-- A text as it stands in a JSON value. -/
  jsonString : Text → Text
  /-- The value of a JSON text, or why it has none. -/
  parseJson : Text → Except Text JsonValue

end MirrorAdapter
