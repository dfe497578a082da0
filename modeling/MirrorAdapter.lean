import MirrorAdapter.Text.Order
import MirrorAdapter.Text.Utf8
import MirrorAdapter.Diagnostic
import MirrorAdapter.Token.Lexer
import MirrorAdapter.Token.Spelling
import MirrorAdapter.Decl.Fault
import MirrorAdapter.Decl.Printer
import MirrorAdapter.Decl.Parsed
import MirrorAdapter.Decl.AttributeList
import MirrorAdapter.Decl.TemplateList
import MirrorAdapter.Decl.Member
import MirrorAdapter.Decl.Parser
import MirrorAdapter.Directive.Parser
import MirrorAdapter.Mapping.Build
import MirrorAdapter.Mapping.Validate
import MirrorAdapter.Mapping.Json
import MirrorAdapter.Name.Identifier
import MirrorAdapter.Name.Slug
import MirrorAdapter.Name.Guard
import MirrorAdapter.Adapter.Index
import MirrorAdapter.Adapter.Repr
import MirrorAdapter.Adapter.Deserialize
import MirrorAdapter.Adapter.Umbrella
import MirrorAdapter.Compile
import MirrorAdapter.Path
import MirrorAdapter.Depfile
import MirrorAdapter.Json.Reader
import MirrorAdapter.Support
import MirrorAdapter.Support.Standard
import MirrorAdapter.FileMode
import MirrorAdapter.Config
import MirrorAdapter.FileSystem.Update
import MirrorAdapter.Output
import MirrorAdapter.Discovery
import MirrorAdapter.Emission
import MirrorAdapter.CommandLine.Run
import MirrorAdapter.Main
import MirrorAdapter.Proofs.Grammar.Basic
import MirrorAdapter.Proofs.Grammar.Steps
import MirrorAdapter.Proofs.Grammar.Attributes
import MirrorAdapter.Proofs.Grammar.Template
import MirrorAdapter.Proofs.Grammar.Members
import MirrorAdapter.Proofs.Grammar.Definition
import MirrorAdapter.Proofs.Grammar.File
import MirrorAdapter.Proofs.Recovery.Seam
import MirrorAdapter.Proofs.Recovery.Locality
import MirrorAdapter.Proofs.Recovery.Isolation
import MirrorAdapter.Proofs.Recovery.Terminator
import MirrorAdapter.Proofs.Recovery.Endings
import MirrorAdapter.Proofs.Headers.Guards
import MirrorAdapter.Proofs.Checks.Outcomes
import MirrorAdapter.Proofs.Compilations
import MirrorAdapter.Proofs.Headers.Includes
import MirrorAdapter.Proofs.Checks.Directives
import MirrorAdapter.Proofs.Checks.Tables
import MirrorAdapter.Proofs.Declarators
import MirrorAdapter.Proofs.Headers.Blocks
import MirrorAdapter.Proofs.Headers.Layout
import MirrorAdapter.Proofs.Headers.Plain
import MirrorAdapter.Proofs.Headers.Members
import MirrorAdapter.Proofs.Headers.Getters
import MirrorAdapter.Proofs.Siblings
import MirrorAdapter.Proofs.Relocation.Tokens
import MirrorAdapter.Proofs.Relocation.Reading
import MirrorAdapter.Proofs.Relocation.Directives
import MirrorAdapter.Proofs.Relocation.Headers
import MirrorAdapter.Proofs.Relocation.Texts
import MirrorAdapter.Proofs.Lexemes
import MirrorAdapter.Proofs.Spans
import MirrorAdapter.Proofs.Vocabulary
import MirrorAdapter.Proofs.Decimals
import MirrorAdapter.Proofs.Slugs
import MirrorAdapter.Proofs.Paths
import MirrorAdapter.Proofs.Headers.Paths
import MirrorAdapter.Proofs.Headers.Structs
import MirrorAdapter.Proofs.Spellings
import MirrorAdapter.Proofs.Checks.RemoteTypes
import MirrorAdapter.Proofs.Keywords
import MirrorAdapter.Proofs.Concatenation
import MirrorAdapter.Proofs.Targets
import MirrorAdapter.Proofs.IncludeLines
import MirrorAdapter.Proofs.FileSystem.Routes
import MirrorAdapter.Proofs.FileSystem.Trees
import MirrorAdapter.Proofs.FileSystem.Changes
import MirrorAdapter.Proofs.FileSystem.Parents
import MirrorAdapter.Proofs.FileSystem.Persistence
import MirrorAdapter.Proofs.Writing
import MirrorAdapter.Proofs.Writing.Runs
import MirrorAdapter.Proofs.Writing.Keeping
import MirrorAdapter.Proofs.Writing.Repeating
import MirrorAdapter.Proofs.Emission
import MirrorAdapter.Proofs.Emission.Runs
import MirrorAdapter.Proofs.Emission.Repeating
import MirrorAdapter.Proofs.Emission.RuntimeHeader
import MirrorAdapter.Proofs.Emission.Dependencies
import MirrorAdapter.Proofs.CommandLine.Failures
import MirrorAdapter.Proofs.FileSystem.Confinement
import MirrorAdapter.Proofs.Emission.Containment
import MirrorAdapter.Proofs.CommandLine.Changes
import MirrorAdapter.Proofs.Cursor.Reader
import MirrorAdapter.Proofs.Cursor.Steps
import MirrorAdapter.Proofs.Cursor.Attributes
import MirrorAdapter.Proofs.Cursor.Members
import MirrorAdapter.Proofs.Cursor.Definitions
import MirrorAdapter.Proofs.Cursor.Lines
import MirrorAdapter.Proofs.Cursor.File
import MirrorAdapter.Proofs.Sorting
import MirrorAdapter.Proofs.Depfile
import MirrorAdapter.Proofs.Rescanning
import MirrorAdapter.Proofs.Recovery.Members
import MirrorAdapter.Proofs.NormalPaths
import MirrorAdapter.Proofs.FileSystem.NormalRoutes
import MirrorAdapter.Proofs.Discovery
import MirrorAdapter.Proofs.Discovery.Inputs
import MirrorAdapter.Proofs.Grammar.Brackets
import MirrorAdapter.Proofs.Headers.RemoteNames
import MirrorAdapter.Proofs.Checks.QualifiedNames
import MirrorAdapter.Proofs.Checks.Forms
import MirrorAdapter.Proofs.Checks.Entries
import MirrorAdapter.Proofs.Checks.Findings
import MirrorAdapter.Proofs.Checks.Regrouping
import MirrorAdapter.Proofs.Checks.FieldNames
import MirrorAdapter.Proofs.Checks.Validation
import MirrorAdapter.Proofs.Checks.NonClasses
import MirrorAdapter.Proofs.Headers.Index
import MirrorAdapter.Proofs.Headers.Lookup
import MirrorAdapter.Proofs.Json.Scalars
import MirrorAdapter.Proofs.Json.RoundTrip
import MirrorAdapter.Proofs.Json.Agreement
import MirrorAdapter.Proofs.Json.Tables
import MirrorAdapter.Proofs.CommandLine.Options
import MirrorAdapter.Proofs.CommandLine.Orders
