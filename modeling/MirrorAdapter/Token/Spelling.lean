import MirrorAdapter.Token.Basic

/-!
# From tokens to text

The spelling of a token list is how types, names and parameters are shown and
compared: one blank between two words, one blank after a comma, and none
elsewhere. White space and comments of the source leave no trace in it.
-/
namespace MirrorAdapter
namespace Token

/-- A token by itself. A string literal is put in quotes again, without
escapes. -/
def written (t : Token) : Text :=
  match t.kind with
  | .string => "\"" ++ t.text ++ "\""
  | .comma => t.text ++ " "
  | _ => t.text

/-- What stands between two adjacent tokens. -/
def separator (t u : Token) : Text :=
  if t.kind.isWordLike && u.kind.isWordLike then " " else []

/-- The spelling of a token list. -/
def spell : List Token → Text
  | [] => []
  | [t] => t.written
  | t :: u :: rest => t.written ++ separator t u ++ spell (u :: rest)

end Token
end MirrorAdapter
