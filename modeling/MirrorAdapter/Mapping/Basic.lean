import MirrorAdapter.Directive.Basic

/-!
# Mappings

How the fields of a mirror type correspond to those of its remote types. A
specification says what was declared; a table, made from a sound one, also
says how each field is read and whether a remote value can be rebuilt.
-/
namespace MirrorAdapter
namespace Mapping

/-- All that is known of a mirror type besides its fields. -/
structure Header where
  name : Text
  location : Location := {}
  /-- The file that declares it. -/
  sourceFile : Text := []
  scope : List Text := []
  templateParams : List TemplateParam := []
  /-- The targets of the include lines of that file. -/
  includes : List Text := []
  remoteTypes : List Reference := []
deriving Repr, DecidableEq, Inhabited

namespace Header

def qualifiedName (h : Header) : Text :=
  MirrorAdapter.qualifiedName h.scope h.name

/-- The names of the template parameters in angle brackets, if there are
any. -/
def templateArguments (h : Header) : Text :=
  if h.templateParams.isEmpty then []
  else "<" ++ Text.join ", " (h.templateParams.map TemplateParam.name) ++ ">"

/-- A type of the given name beside the mirror type, with its template
parameters, as it can be written in any scope. -/
def sibling (h : Header) (name : Text) : Text :=
  "::" ++ MirrorAdapter.qualifiedName h.scope name ++ h.templateArguments

/-- The mirror type as it can be written in any scope. -/
def typeReference (h : Header) : Text := h.sibling h.name

end Header

namespace Converter

/-- How a converter was chosen. -/
inductive Kind where
  /-- The value is archived as it is. -/
  | identity
  /-- The type of the field converts its counterpart. -/
  | mirrorSelf
  /-- A converter was named. -/
  | explicit
deriving Repr, DecidableEq, Inhabited

def Kind.name : Kind → Text
  | .identity => "identity"
  | .mirrorSelf => "mirror-self"
  | .explicit => "explicit"

end Converter

/-- The converter of a field; the identity has no spelling. -/
structure Converter where
  kind : Converter.Kind := .identity
  spelling : Text := []
  location : Location := {}
deriving Repr, DecidableEq, Inhabited

/-- A field, what was said of it, and its converter. -/
structure Field where
  name : Text
  location : Location := {}
  /-- Its type in the mirror type. -/
  type : Reference
  directives : Directive.FieldDirectives := {}
  converter : Converter := {}
deriving Repr, DecidableEq, Inhabited

/-- The type its converter acts on: that of its counterpart if one is named,
else its own. -/
def Field.valueType (f : Field) : Text :=
  match f.directives.source with
  | some source => source.spelling
  | none => f.type.spelling

structure Spec where
  header : Header
  fields : List Field
deriving Repr, DecidableEq, Inhabited

/-- How a field is read from a remote value. -/
inductive Access where
  /-- As a member. -/
  | direct
  /-- By a getter that takes a reference. -/
  | getter
  /-- By a getter that takes a copy. -/
  | getterOwned
deriving Repr, DecidableEq, Inhabited

def Access.name : Access → Text
  | .direct => "direct"
  | .getter => "getter"
  | .getterOwned => "getter-owned"

/-- A field of a table. -/
structure Entry where
  field : Field
  access : Access := .direct
  /-- Whether the field of a remote value can be set again. -/
  reconstructable : Bool := true
deriving Repr, DecidableEq, Inhabited

structure Table where
  header : Header
  entries : List Entry
  fullyReconstructable : Bool := true
deriving Repr, DecidableEq, Inhabited

end Mapping
end MirrorAdapter
