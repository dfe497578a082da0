import MirrorAdapter.Decl.Basic
import MirrorAdapter.Diagnostic

/-!
# Directives

A mirror type names its remote types; a field may name the type it has there,
a converter, and a getter that reads it. What is malformed is found item by
item and reported against its subject.
-/
namespace MirrorAdapter
namespace Directive

/-- The directives there are. -/
inductive Key where
  /-- The remote type, or the type of the field there. -/
  | source
  /-- The converter. -/
  | via
  /-- The function that reads the field. -/
  | getter
  /-- The getter takes the remote value itself. -/
  | getterOwned
deriving Repr, DecidableEq, Inhabited

def Key.word : Key → Text
  | .source => "from"
  | .via => "via"
  | .getter => "getter"
  | .getterOwned => "getter_owned"

def Key.all : List Key := [.source, .via, .getter, .getterOwned]

def Key.ofWord? (word : Text) : Option Key := Key.all.find? (·.word == word)

/-- What a mirror type says of its remote types. -/
structure TypeDirectives where
  /-- The place of the first directive list, or of the declaration if it has
  none. -/
  location : Location
  present : Bool := false
  remoteTypes : List Reference := []
deriving Repr, DecidableEq, Inhabited

/-- What a field says of its counterpart. -/
structure FieldDirectives where
  /-- The type of the counterpart. -/
  source : Option Reference := none
  via : Option Reference := none
  getter : Option Reference := none
  getterOwned : Bool := false
  getterOwnedLocation : Location := {}
deriving Repr, DecidableEq, Inhabited

/-- The directives of a declaration; the fields are in the order of the
declaration. -/
structure Model where
  type : TypeDirectives
  fields : List FieldDirectives
deriving Repr, DecidableEq, Inhabited

/-- What can be wrong with a directive list. -/
inductive Fault where
  /-- The attribute has no parentheses. -/
  | noArguments
  | emptyList
  | emptyArgument
  | notAKey (found : Text)
  | unbalanced (key : Text)
  /-- Something stands between the list of a directive and the next comma. -/
  | trailing (key : Text)
  | missingValue (key : Text)
  | unexpected (found key : Text)
  | unknown (key : Text)
  /-- A directive of fields on a type. -/
  | onlyOnFields (key : Text)
  | repeated (key : Text)
  | notATypeList (key : Text)
  | emptyType (key : Text)
  | stringType (key : Text)
  | notOneType (key : Text)
  | getterNotAString
  | getterNotQualified (name : Text)
  | flagWithArguments
deriving Repr, DecidableEq, Inhabited

def Fault.message : Fault → Text
  | .noArguments => "archive_with requires an argument list"
  | .emptyList => "archive_with argument list is empty"
  | .emptyArgument => "empty argument in archive_with"
  | .notAKey found => "expected directive key, found " ++ found.quoted
  | .unbalanced key => "unbalanced parentheses after " ++ key.quoted
  | .trailing key => "unexpected tokens after '" ++ key ++ "(...)'"
  | .missingValue key => "missing value after '" ++ key ++ " ='"
  | .unexpected found key =>
    "unexpected " ++ found.quoted ++ " after " ++ key.quoted
  | .unknown key => "unknown archive_with directive " ++ key.quoted
  | .onlyOnFields key => key.quoted ++ " is only valid on fields"
  | .repeated key => "directive " ++ key.quoted ++ " given more than once"
  | .notATypeList key => key.quoted ++ " expects a parenthesized type list"
  | .emptyType key => "empty type argument in " ++ key.quoted
  | .stringType key => key.quoted ++ " expects a type, not a string literal"
  | .notOneType key => key.quoted ++ " on a field takes exactly one type"
  | .getterNotAString =>
    "'getter' expects a string literal, e.g. getter = \"::ns::read\""
  | .getterNotQualified name =>
    "getter \"" ++ name ++ "\" is not a '::'-qualified function name"
  | .flagWithArguments => "'getter_owned' is a flag and takes no arguments"

/-- A fault and where it was found. -/
structure Finding where
  fault : Fault
  location : Location
deriving Repr, DecidableEq, Inhabited

def Finding.report (subject : Subject) (f : Finding) : Diagnostic :=
  { severity := .error
    location := f.location
    message := subject.render ++ ": " ++ f.fault.message
    kind := .directiveSyntax }

/-- Whose directives failed to be read. -/
inductive Error where
  | type (mirror : Text)
  | field (mirror name : Text)
  | model (mirror : Text)
deriving Repr, DecidableEq, Inhabited

def Error.message : Error → Text
  | .type mirror => "invalid type directives on " ++ mirror.beforeNul
  | .field mirror name =>
    "invalid directives on " ++ mirror.beforeNul ++ "::" ++ name.beforeNul
  | .model mirror => "archive_with syntax errors in " ++ mirror.beforeNul

end Directive
end MirrorAdapter
