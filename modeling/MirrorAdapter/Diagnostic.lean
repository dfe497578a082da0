import MirrorAdapter.Location

/-!
# Diagnostics

What a run reports about its sources. A log keeps the records in the order in
which they arose; joining two logs is list concatenation, so counts add up and
a log has errors iff one of its parts has.
-/
namespace MirrorAdapter

inductive Severity where
  | note
  | warning
  | error
deriving Repr, DecidableEq, Inhabited

def Severity.word : Severity → Text
  | .note => "note"
  | .warning => "warning"
  | .error => "error"

namespace Diagnostic

/-- The check that made a report. -/
inductive Kind where
  /-- Grammar, files, and all that has no check of its own. -/
  | generic
  /-- A malformed directive list. -/
  | directiveSyntax
  | duplicateField
  | missingRemoteType
  | duplicateRemoteType
  | getterOwnedWithoutGetter
  /-- A converter that cannot act on its field. -/
  | ambiguousConversion
  /-- No deserializer can be derived. -/
  | notReconstructable
deriving Repr, DecidableEq, Inhabited

/-- The name shown with a report. -/
def Kind.name : Kind → Text
  | .generic => "Generic"
  | .directiveSyntax => "Syntax"
  | .duplicateField => "DuplicateField"
  | .missingRemoteType => "MissingRemoteType"
  | .duplicateRemoteType => "DuplicateRemoteType"
  | .getterOwnedWithoutGetter => "GetterOwnedWithoutGetter"
  | .ambiguousConversion => "AmbiguousConversion"
  | .notReconstructable => "NotReconstructable"

end Diagnostic

/-- One report. The length is the number of source characters to underline, at
least one. -/
structure Diagnostic where
  severity : Severity
  location : Location
  message : Text
  kind : Diagnostic.Kind := .generic
  length : UInt32 := 1
deriving Repr, DecidableEq, Inhabited

namespace Diagnostic

/-- The report with the given length, raised to one where it is zero. -/
def withLength (d : Diagnostic) (length : UInt32) : Diagnostic :=
  { d with length := if length = 0 then 1 else length }

def isError (d : Diagnostic) : Bool := d.severity == .error

/-- One line without its end. A generic report does not show its kind. -/
def render (d : Diagnostic) : Text :=
  d.location.render ++ ": " ++ d.severity.word ++ ": " ++ d.message ++
    match d.kind with
    | .generic => []
    | kind => " [" ++ kind.name ++ "]"

end Diagnostic

/-- Reports in the order in which they were made. -/
abbrev Log := List Diagnostic

namespace Log

def hasErrors (log : Log) : Bool := log.any Diagnostic.isError

/-- How many reports a check made. -/
def count (log : Log) (kind : Diagnostic.Kind) : Nat :=
  log.countP (·.kind = kind)

/-- Every report on a line of its own. -/
def render (log : Log) : Text :=
  Text.terminated "\n" (log.map Diagnostic.render)

theorem hasErrors_append (a b : Log) :
    hasErrors (a ++ b) = (hasErrors a || hasErrors b) :=
  List.any_append

end Log

/-- The outcome of a check: what it found or why it failed, and what it
reported on the way. -/
structure Outcome (ε α : Type) where
  result : Except ε α
  log : Log := []

/-- What a report speaks of. -/
inductive Subject where
  | mirror (name : Text)
  | field (owner name : Text)
deriving Repr, DecidableEq, Inhabited

def Subject.render : Subject → Text
  | .mirror name => "mirror " ++ name.quoted
  | .field owner name => "mirror " ++ owner.quoted ++ " field " ++ name.quoted

end MirrorAdapter
