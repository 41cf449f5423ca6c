import TypedLang.Cursor
import TypedLang.Main
import TypedLang.Program.Node
import TypedLang.SourceCheck
import TypedLang.Proofs.Scope.Erasure
import TypedLang.Proofs.Scope.Arena
import TypedLang.Proofs.Scope.Violations
import TypedLang.Proofs.Scope.Binding
import TypedLang.Proofs.Scope.Resolution
import TypedLang.Proofs.Parsing.Grammar
import TypedLang.Proofs.Parsing.Soundness
import TypedLang.Proofs.Parsing.Fresh
import TypedLang.Proofs.Scope.Correctness
import TypedLang.Proofs.Typing.Rules
import TypedLang.Proofs.Typing.Uniqueness
import TypedLang.Proofs.Typing.Erasure
import TypedLang.Proofs.Typing.Annotations
import TypedLang.Proofs.Typing.Untyped
import TypedLang.Proofs.Typing.Expressions
import TypedLang.Proofs.Typing.Leaves
import TypedLang.Proofs.Typing.Programs
import TypedLang.Proofs.Reports.Errors
import TypedLang.Proofs.Parsing.Marks
import TypedLang.Proofs.Reports.Places
import TypedLang.Proofs.Reports.Reportable
import TypedLang.Proofs.Scope.Guard
import TypedLang.Proofs.Scope.Numbering
import TypedLang.Proofs.Compilation
import TypedLang.Proofs.Parsing.Sentences
import TypedLang.Proofs.Parsing.Precedence
import TypedLang.Proofs.Severity
import TypedLang.Proofs.FirstFailure
import TypedLang.Proofs.Token.Partition
import TypedLang.Proofs.Parsing.Segments
import TypedLang.Proofs.Parsing.Bodies
import TypedLang.Proofs.Parsing.Blame
import TypedLang.Proofs.Token.Munch
import TypedLang.Proofs.Parsing.Prefixes
import TypedLang.Proofs.Layout
import TypedLang.Proofs.Isolation
import TypedLang.Proofs.Exchange
import TypedLang.Proofs.Token.Seams
import TypedLang.Proofs.SourceCheck
import TypedLang.Proofs.CommandLine
import TypedLang.Proofs.Renaming
import TypedLang.Proofs.Token.Spacing
import TypedLang.Proofs.Token.Strings
import TypedLang.Proofs.Token.Characters
import TypedLang.Proofs.Integers
import TypedLang.Proofs.Token.Calls
import TypedLang.Proofs.Parsing.Extents
import TypedLang.Proofs.Source.Table
import TypedLang.Proofs.Walks
import TypedLang.Proofs.Scope.Environments
import TypedLang.Proofs.Repetition
import TypedLang.Proofs.Reports.Printed
import TypedLang.Proofs.Listing.Faithful
import TypedLang.Proofs.Token.Interning
import TypedLang.Proofs.Parsing.Resumption
import TypedLang.Proofs.Token.Cursors
import TypedLang.Proofs.Token.Scanners
import TypedLang.Proofs.Reports.Drafts
