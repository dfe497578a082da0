import MirrorAdapter.Token.Basic

/-!
# Declarations

What a mirror file declares. Types and parameters are kept as spellings, the
arguments of an attribute as tokens, since only later steps know what they
mean.
-/
namespace MirrorAdapter

/-- A name or type as it is spelled, and where it was written. -/
structure Reference where
  spelling : Text
  location : Location := {}
deriving Repr, DecidableEq, Inhabited

/-- A template parameter such as `typename T`, and the name `T` it
declares. -/
structure TemplateParam where
  declaration : Text
  name : Text
deriving Repr, DecidableEq, Inhabited

/-- A name in a namespace, `a::b::name`, without a leading `::`. -/
def qualifiedName (scope : List Text) (name : Text) : Text :=
  Text.terminated "::" scope ++ name

namespace Decl

structure Attribute where
  name : Text
  location : Location
  /-- The tokens between its parentheses, if it has any. -/
  arguments : Option (List Token) := none
deriving Repr, DecidableEq, Inhabited

/-- The attribute whose arguments are directives. All others are ignored. -/
def directiveName : Text := "archive_with"

def Attribute.isDirective (a : Attribute) : Bool := a.name == directiveName

/-- A template parameter and the place of its first token. -/
structure LocatedParam extends TemplateParam where
  location : Location
deriving Repr, DecidableEq, Inhabited

structure Field where
  name : Text
  location : Location
  type : Reference
  attributes : List Attribute := []
deriving Repr, DecidableEq, Inhabited

/-- The definition of one mirror type. -/
structure Mirror where
  name : Text
  location : Location
  /-- The components of the enclosing namespaces, outermost first. -/
  scope : List Text := []
  isClass : Bool := false
  templateParams : List LocatedParam := []
  attributes : List Attribute := []
  fields : List Field := []
deriving Repr, DecidableEq, Inhabited

def Mirror.qualifiedName (m : Mirror) : Text :=
  MirrorAdapter.qualifiedName m.scope m.name

/-- An include line; the target keeps its quotes or angle brackets. -/
structure Include where
  target : Text
  location : Location
deriving Repr, DecidableEq, Inhabited

structure File where
  path : Text
  includes : List Include := []
  mirrors : List Mirror := []
deriving Repr, DecidableEq, Inhabited

/-- All files of a run, in order. -/
abbrev Module := List File

end Decl
end MirrorAdapter
