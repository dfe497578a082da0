import MirrorAdapter.Json.Basic

/-!
# JSON text

Every item and member has a line of its own, indented by two blanks a level;
an empty array or object stands on one line. In strings, quotes, backslashes
and control bytes are escaped, and all else is written as it is.
-/
namespace MirrorAdapter
namespace JsonValue

/-- A number below sixteen as a lower-case hexadecimal digit. -/
def hexDigit (n : Nat) : Byte :=
  UInt8.ofNat (if n < 10 then 48 + n else 87 + n)

/-- A byte as it is written in a string. -/
def escape (b : Byte) : Text :=
  if b = '"' then "\\\""
  else if b = '\\' then "\\\\"
  else if b = '\t' then "\\t"
  else if b = '\n' then "\\n"
  else if b = '\r' then "\\r"
  else if b < 32 then
    "\\u00" ++ [hexDigit (b.toNat / 16), hexDigit (b.toNat % 16)]
  else [b]

def quote (s : Text) : Text := "\"" ++ s.flatMap escape ++ "\""

def integerText (n : Int) : Text :=
  let sign : Text := if n < 0 then "-" else []
  sign ++ Text.decimal n.natAbs

/-- The start of a line at a level of indentation. -/
def indent (level : Nat) : Text := List.replicate (2 * level) 32

mutual

/-- A value whose first line is already indented, the lines inside it being
one level deeper. -/
def render (level : Nat) : JsonValue → Text
  | .null => "null"
  | .bool true => "true"
  | .bool false => "false"
  | .integer n => integerText n
  | .decimal mantissa exponent =>
    integerText mantissa ++ "e" ++ integerText exponent
  | .string s => quote s
  | .array [] => "[]"
  | .array (item :: items) =>
    "[\n" ++ indent (level + 1) ++ render (level + 1) item ++
      renderItems (level + 1) items ++ "\n" ++ indent level ++ "]"
  | .object [] => "\x7b\x7d"
  | .object ((key, value) :: members) =>
    "\x7b\n" ++ indent (level + 1) ++ quote key ++ ": " ++
      render (level + 1) value ++ renderMembers (level + 1) members ++
      "\n" ++ indent level ++ "\x7d"

/-- The further items of an array. -/
def renderItems (level : Nat) : List JsonValue → Text
  | [] => []
  | item :: items =>
    ",\n" ++ indent level ++ render level item ++ renderItems level items

/-- The further members of an object. -/
def renderMembers (level : Nat) : List (Text × JsonValue) → Text
  | [] => []
  | (key, value) :: members =>
    ",\n" ++ indent level ++ quote key ++ ": " ++ render level value ++
      renderMembers level members

end

end JsonValue
end MirrorAdapter
