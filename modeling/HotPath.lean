import HotPath.Analysis
import HotPath.Command.Arguments
import HotPath.Command.Layout
import HotPath.Command.Report
import HotPath.Command.Run
import HotPath.Command.Setup
import HotPath.ConfigError
import HotPath.Diagnostic
import HotPath.Fault
import HotPath.Files.Folder
import HotPath.Files.Path
import HotPath.Files.Snapshot
import HotPath.Files.Source
import HotPath.Hazard
import HotPath.Heat.Chain
import HotPath.Heat.Cycle
import HotPath.Heat.Graph
import HotPath.Heat.Mark
import HotPath.Heat.Propagate
import HotPath.Json.Printer
import HotPath.Json.Reader
import HotPath.Linter.Basic
import HotPath.Linter.Entry
import HotPath.Linter.Files
import HotPath.Log
import HotPath.Logging
import HotPath.Main
import HotPath.NameSet
import HotPath.Number.Binary64
import HotPath.OrderedMap
import HotPath.Project.ConfigFile
import HotPath.Project.EnvFile
import HotPath.Project.Settings
import HotPath.Proofs.Analysis
import HotPath.Proofs.Callee
import HotPath.Proofs.Checks
import HotPath.Proofs.Command.Agreement
import HotPath.Proofs.Command.Escapes
import HotPath.Proofs.Command.PairTable
import HotPath.Proofs.Command.Precedence
import HotPath.Proofs.Command.Setup
import HotPath.Proofs.Comment.Declared
import HotPath.Proofs.Comment.Hazards
import HotPath.Proofs.Comment.Reading
import HotPath.Proofs.Comment.Removal
import HotPath.Proofs.Comment.Roots
import HotPath.Proofs.Comment.Scopes
import HotPath.Proofs.FastState
import HotPath.Proofs.Faults
import HotPath.Proofs.Guard
import HotPath.Proofs.Heat.Chain
import HotPath.Proofs.Heat.Edges
import HotPath.Proofs.Heat.Explored
import HotPath.Proofs.Heat.History
import HotPath.Proofs.Heat.Limit
import HotPath.Proofs.Heat.Path
import HotPath.Proofs.Heat.Reach
import HotPath.Proofs.Heat.Run
import HotPath.Proofs.Heat.Scanned
import HotPath.Proofs.Heat.Stopped
import HotPath.Proofs.Heat.Tables
import HotPath.Proofs.Heat.Visit
import HotPath.Proofs.Json.Reader
import HotPath.Proofs.Linter.Arrange
import HotPath.Proofs.Linter.Built
import HotPath.Proofs.Linter.Dispatch
import HotPath.Proofs.Linter.Isolation
import HotPath.Proofs.Linter.Layers
import HotPath.Proofs.Linter.Merge
import HotPath.Proofs.Marks
import HotPath.Proofs.OrderedMap
import HotPath.Proofs.Pattern
import HotPath.Proofs.Project.ConfigFile
import HotPath.Proofs.Project.Variables
import HotPath.Proofs.Reachability
import HotPath.Proofs.Reading
import HotPath.Proofs.Resolve
import HotPath.Proofs.Rule.Name
import HotPath.Proofs.Rule.Options
import HotPath.Proofs.Scope.Alias
import HotPath.Proofs.Scope.Chain
import HotPath.Proofs.Scope.Declared
import HotPath.Proofs.Scope.Enclosing
import HotPath.Proofs.Scope.Entered
import HotPath.Proofs.Scope.Handlers
import HotPath.Proofs.Scope.Hoisted
import HotPath.Proofs.Scope.Initializer
import HotPath.Proofs.Scope.Lexical
import HotPath.Proofs.Scope.Made
import HotPath.Proofs.Scope.Member
import HotPath.Proofs.Scope.Nesting
import HotPath.Proofs.Scope.Position
import HotPath.Proofs.Scope.Recorded
import HotPath.Proofs.Scope.Visible
import HotPath.Proofs.Scope.Walk
import HotPath.Proofs.Subtree
import HotPath.Proofs.Success
import HotPath.Proofs.Task
import HotPath.RawText
import HotPath.Root
import HotPath.Rule.Basic
import HotPath.Rule.Listener
import HotPath.Rule.Options
import HotPath.Rule.StateSetter
import HotPath.Scope.Basic
import HotPath.Scope.Build
import HotPath.Scope.Pattern
import HotPath.Scope.Resolve
import HotPath.Syntax.Cursor
import HotPath.Syntax.Host
import HotPath.Syntax.Node
import HotPath.Syntax.Reading
import HotPath.Syntax.Walk
import HotPath.Task
import HotPath.Template
import HotPath.Terminal
import HotPath.Text.Case
import HotPath.Text.Cased
import HotPath.Text.Integer
import HotPath.Text.Markup
import HotPath.Text.Quoted
import HotPath.Text.Utf8
import HotPath.Value
import HotPath.Proofs.Rule.Validation
import HotPath.Proofs.Command.Glyphs
import HotPath.Proofs.Rule.RoundTrip
import HotPath.Proofs.Files.Path
import HotPath.Proofs.Files.Folder
import HotPath.Proofs.Linter.Discover
import HotPath.Proofs.Linter.Paths
import HotPath.Proofs.Traversal
import HotPath.Proofs.Handlers
import HotPath.Proofs.MarkHistory
