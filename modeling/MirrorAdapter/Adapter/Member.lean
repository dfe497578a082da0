import MirrorAdapter.Adapter.Layout

/-!
# Members of generated types

All generated headers of a mirror type speak of the same members: the fields
of its table, in order, each with the converter and the value type that
generated code names. How a member is read from a remote value is the only
other thing they need.
-/
namespace MirrorAdapter
namespace Adapter

open Mapping (Header Entry Table)

/-- How generated code reads a member from `remote`. -/
inductive Source where
  | direct
  /-- By a call on `remote`. -/
  | call (function : Text)
  /-- By a call on a fresh copy of `remote`. -/
  | callOnCopy (function : Text)
deriving Repr, DecidableEq, Inhabited

structure Member where
  name : Text
  converter : Text
  value : Text
  source : Source := .direct
deriving Repr, DecidableEq, Inhabited

def Source.ofEntry (e : Entry) : Source :=
  let function : Text := match e.field.directives.getter with
    | some getter => getter.spelling
    | none => []
  match e.access with
  | .direct => .direct
  | .getter => .call function
  | .getterOwned => .callOnCopy function

def Member.ofEntry (h : Header) (e : Entry) : Member where
  name := e.field.name
  converter := converterName h e.field
  value := valueTypeName h e.field
  source := .ofEntry e

def members (t : Table) : List Member :=
  t.entries.map (Member.ofEntry t.header)

namespace Member

/-- The local variable that holds the value of the member. -/
def localValue (m : Member) : Text := "field_" ++ m.name

/-- The local variable that holds its resolver. -/
def localResolver (m : Member) : Text := "resolver_" ++ m.name

/-- The template arguments that stand for the member. -/
def arguments (m : Member) : Text :=
  "<" ++ m.converter ++ ", " ++ m.value ++ ">"

/-- The statement that reads the member from a value of the remote type. -/
def binding (remote : Text) (m : Member) : Text :=
  match m.source with
  | .direct =>
    "const " ++ m.value ++ "& " ++ m.localValue ++ " = remote." ++ m.name ++ ";"
  | .call function =>
    "const " ++ m.value ++ "& " ++ m.localValue ++ " = std::invoke(&" ++
      function ++ ", remote);"
  | .callOnCopy function =>
    "const " ++ m.value ++ " " ++ m.localValue ++ " = std::invoke(&" ++
      function ++ ", " ++ remote ++ "(remote));"

end Member
end Adapter
end MirrorAdapter
