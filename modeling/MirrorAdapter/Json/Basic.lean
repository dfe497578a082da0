import MirrorAdapter.Text.Order
import MirrorAdapter.Json.Binary64

/-!
# JSON values

Values as they are written and read. The members of an object are kept in
their order; a key that occurs more than once stands for its last value.
-/
namespace MirrorAdapter

inductive JsonValue where
  | null
  | bool (value : Bool)
  /-- A number written without fraction and exponent. -/
  | integer (value : Int)
  /-- The number `mantissa * 10 ^ exponent`. -/
  | decimal (mantissa exponent : Int)
  | string (value : Text)
  | array (items : List JsonValue)
  | object (members : List (Text × JsonValue))
deriving Repr, Inhabited

namespace JsonValue

/-- A member put at its place among members with increasing keys. -/
def insertMember (member : Text × JsonValue) :
    List (Text × JsonValue) → List (Text × JsonValue)
  | [] => [member]
  | other :: rest =>
    if Text.before other.1 member.1 then other :: insertMember member rest
    else member :: other :: rest

/-- The object with the given members in the order of their keys. -/
def sortedObject (members : List (Text × JsonValue)) : JsonValue :=
  .object (members.foldr insertMember [])

def natural (n : Nat) : JsonValue := .integer (Int.ofNat n)

def members? : JsonValue → Option (List (Text × JsonValue))
  | .object members => some members
  | _ => none

def items? : JsonValue → Option (List JsonValue)
  | .array items => some items
  | _ => none

def string? : JsonValue → Option Text
  | .string value => some value
  | _ => none

def bool? : JsonValue → Option Bool
  | .bool value => some value
  | _ => none

/-- Whether a number is a signed 64-bit word. -/
def isWord (n : Int) : Bool :=
  -9223372036854775808 ≤ n && n ≤ 9223372036854775807

/-- The value of a number as a signed 64-bit word. A word written as an
integer is itself; any other number is rounded to a binary floating-point
number first, and must then be a word without fraction. -/
def word? : JsonValue → Option Int
  | .integer n =>
    if isWord n then some n else (Binary64.ofDecimal n 0).toInt?.filter isWord
  | .decimal mantissa exponent =>
    (Binary64.ofDecimal mantissa exponent).toInt?.filter isWord
  | _ => none

/-- The value of a key among members. -/
def get? (members : List (Text × JsonValue)) (key : Text) : Option JsonValue :=
  members.reverse.lookup key

end JsonValue
end MirrorAdapter
