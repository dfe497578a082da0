import MirrorAdapter.Diagnostic

/-!
# Faults of declarations

Everything that the grammar of mirror files can find wrong. Two faults are
mere warnings: what they report is left out or moved, and the declaration
stands.
-/
namespace MirrorAdapter
namespace Decl

inductive Fault where
  /-- A closing brace that opens nowhere. -/
  | unbalancedBrace
  /-- A `#` line other than an include. -/
  | notAnInclude
  | unterminatedTarget
  | missingTarget
  /-- An include inside a namespace block. -/
  | hoistedInclude
  | missingNamespaceName
  | missingNamespaceBrace
  | unclosedNamespace
  | missingAttributeName
  | missingAttributeComponent
  | unbalancedArguments (name : Text)
  | ignoredAttribute (name : Text)
  | unclosedAttributeList
  | missingTemplateList
  | emptyTemplateParam
  | templateDefault
  | unnamedTemplateParam
  | unterminatedTemplateList
  | notADefinition (found : Text)
  | missingMirrorName
  | forwardDeclaration (mirror : Text)
  | baseClasses (mirror : Text)
  | missingBody
  | notPublic
  | unclosedBody
  | unterminatedMirror
  | initializer
  | notADataField
  | unterminatedField
  | malformedField
deriving Repr, DecidableEq, Inhabited

namespace Fault

def severity : Fault → Severity
  | .hoistedInclude | .ignoredAttribute _ => .warning
  | _ => .error

def message : Fault → Text
  | .unbalancedBrace => "unbalanced '\x7d' at file scope"
  | .notAnInclude => "only '#include' preprocessor lines are supported"
  | .unterminatedTarget => "unterminated '<...>' include target"
  | .missingTarget => "expected \"file\" or <file> after #include"
  | .hoistedInclude =>
    "#include inside a namespace block is hoisted to file scope"
  | .missingNamespaceName =>
    "expected namespace name (anonymous namespaces are not supported)"
  | .missingNamespaceBrace => "expected '\x7b' after namespace name"
  | .unclosedNamespace => "namespace block is not closed"
  | .missingAttributeName => "expected attribute name"
  | .missingAttributeComponent => "expected attribute name after '::'"
  | .unbalancedArguments name =>
    "unbalanced parentheses in attribute " ++ name.quoted
  | .ignoredAttribute name => "ignoring attribute " ++ name.quoted
  | .unclosedAttributeList => "expected ']]' to close attribute list"
  | .missingTemplateList => "expected '<' after 'template'"
  | .emptyTemplateParam => "empty template parameter"
  | .templateDefault =>
    "default template arguments are not supported on mirror types"
  | .unnamedTemplateParam => "template parameter must be named"
  | .unterminatedTemplateList => "unterminated template parameter list"
  | .notADefinition found =>
    "expected 'struct' or 'class' declaration, found " ++ found.quoted
  | .missingMirrorName => "expected mirror type name"
  | .forwardDeclaration mirror =>
    "mirror type " ++ mirror.quoted ++ " must be defined, not forward-declared"
  | .baseClasses mirror =>
    "mirror type " ++ mirror.quoted ++ " cannot have base classes"
  | .missingBody => "expected '\x7b' to open mirror type body"
  | .notPublic => "mirror fields must be public"
  | .unclosedBody => "expected '\x7d' to close mirror type body"
  | .unterminatedMirror => "expected ';' after mirror type definition"
  | .initializer =>
    "default member initializers are not supported on mirror fields"
  | .notADataField => "mirror types may only declare data fields"
  | .unterminatedField => "expected ';' after field declaration"
  | .malformedField => "expected '<type> <name>;' field declaration"

/-- The report of a fault at a place. -/
def report (fault : Fault) (location : Location) : Diagnostic :=
  { severity := fault.severity, location, message := fault.message }

end Fault
end Decl
end MirrorAdapter
