import Middleweight.Analysis.Basic
import Middleweight.Analysis.Expand
import Middleweight.Analysis.Issue
import Middleweight.Analysis.Locals
import Middleweight.Analysis.Regroup
import Middleweight.Analysis.TypeCheck
import Middleweight.ClassTable.Basic
import Middleweight.ClassTable.Imports
import Middleweight.ClassTable.Lowering
import Middleweight.ClassTable.Subtype
import Middleweight.ClassTable.Template
import Middleweight.Cli.Arguments
import Middleweight.Cli.Commands
import Middleweight.Cli.Config
import Middleweight.Cli.Files
import Middleweight.Cli.LogFilter
import Middleweight.Cli.Path
import Middleweight.Cli.Report
import Middleweight.Cli.Settings
import Middleweight.Decimal.Floating
import Middleweight.Decimal.Nearest
import Middleweight.Decimal.Shortest
import Middleweight.Engine.Basic
import Middleweight.Engine.Error
import Middleweight.Engine.Eval
import Middleweight.Engine.Exec
import Middleweight.Engine.Host
import Middleweight.Engine.Invoke
import Middleweight.Engine.Machine
import Middleweight.Engine.Operators
import Middleweight.Engine.Scope
import Middleweight.Engine.Value
import Middleweight.Json.Basic
import Middleweight.Json.Canonical
import Middleweight.Json.Parser
import Middleweight.Json.Printer
import Middleweight.Json.Record
import Middleweight.Main
import Middleweight.Members.Registry
import Middleweight.Members.Resolution
import Middleweight.Members.RuntimeClass
import Middleweight.Members.Source
import Middleweight.Native.Class
import Middleweight.Native.Decode
import Middleweight.Native.Namespace
import Middleweight.Native.Probe
import Middleweight.Native.Standard
import Middleweight.Proofs.Analysis.Chains
import Middleweight.Proofs.Analysis.CheckMatch
import Middleweight.Proofs.Analysis.Checked
import Middleweight.Proofs.Analysis.ClassOrder
import Middleweight.Proofs.Analysis.Climbing
import Middleweight.Proofs.Analysis.Entry
import Middleweight.Proofs.Analysis.ExpandRegroup
import Middleweight.Proofs.Analysis.ExpandedRun
import Middleweight.Proofs.Analysis.Expansion
import Middleweight.Proofs.Analysis.FieldNames
import Middleweight.Proofs.Analysis.Idempotence
import Middleweight.Proofs.Analysis.Regroup
import Middleweight.Proofs.Analysis.Renaming
import Middleweight.Proofs.Analysis.TableAgreement
import Middleweight.Proofs.Basic
import Middleweight.Proofs.ClassTable.Build
import Middleweight.Proofs.ClassTable.Closed
import Middleweight.Proofs.ClassTable.Complete
import Middleweight.Proofs.ClassTable.ImportClosure
import Middleweight.Proofs.ClassTable.Match
import Middleweight.Proofs.ClassTable.Renaming
import Middleweight.Proofs.ClassTable.Rooted
import Middleweight.Proofs.ClassTable.Standard
import Middleweight.Proofs.ClassTable.Subtype
import Middleweight.Proofs.ClassTable.Walk
import Middleweight.Proofs.ClassTable.WrittenNames
import Middleweight.Proofs.ClassTable.WrittenTypes
import Middleweight.Proofs.Engine.Agreement
import Middleweight.Proofs.Engine.Built
import Middleweight.Proofs.Engine.EvalAgreement
import Middleweight.Proofs.Engine.ExtraLevels
import Middleweight.Proofs.Engine.ForLoops
import Middleweight.Proofs.Engine.HostAgreement
import Middleweight.Proofs.Engine.Integers
import Middleweight.Proofs.Engine.KeptScope
import Middleweight.Proofs.Engine.Memo
import Middleweight.Proofs.Engine.Notes
import Middleweight.Proofs.Engine.OpenCalls
import Middleweight.Proofs.Engine.Parts
import Middleweight.Proofs.Engine.Relation
import Middleweight.Proofs.Engine.ResultKinds
import Middleweight.Proofs.Engine.Returns
import Middleweight.Proofs.Engine.RunAgreement
import Middleweight.Proofs.Engine.Safety
import Middleweight.Proofs.Engine.ScopeNames
import Middleweight.Proofs.Engine.Typing
import Middleweight.Proofs.Json.Abridged
import Middleweight.Proofs.Members.Agreement
import Middleweight.Proofs.Members.BaseWalks
import Middleweight.Proofs.Members.Callable
import Middleweight.Proofs.Members.ClassMatch
import Middleweight.Proofs.Members.Concrete
import Middleweight.Proofs.Members.Errors
import Middleweight.Proofs.Members.Fit
import Middleweight.Proofs.Members.Inference
import Middleweight.Proofs.Members.Levels
import Middleweight.Proofs.Members.Selection
import Middleweight.Proofs.Members.Views
import Middleweight.Proofs.Native.Listing
import Middleweight.Proofs.Native.Lists
import Middleweight.Proofs.Native.Registration
import Middleweight.Proofs.Objects.FieldReads
import Middleweight.Proofs.Objects.Runs
import Middleweight.Proofs.Registry.Bounds
import Middleweight.Proofs.Registry.Instantiation
import Middleweight.Proofs.Registry.Memo
import Middleweight.Proofs.Registry.Sessions
import Middleweight.Proofs.Soundness.Expressions
import Middleweight.Proofs.Soundness.InstanceTests
import Middleweight.Proofs.Soundness.Operators
import Middleweight.Proofs.Soundness.Returns
import Middleweight.Proofs.Soundness.Runs
import Middleweight.Proofs.Soundness.Statements
import Middleweight.Proofs.Source.Positions
import Middleweight.Proofs.Syntax.Finite
import Middleweight.Proofs.Syntax.Monomorphic
import Middleweight.Proofs.Syntax.OrdinaryNames
import Middleweight.Proofs.Syntax.Procedural
import Middleweight.Proofs.Syntax.Renaming
import Middleweight.Proofs.Syntax.Retyped
import Middleweight.Proofs.Syntax.RoundTrip
import Middleweight.Proofs.Syntax.TypeText
import Middleweight.Proofs.Syntax.TypeUses
import Middleweight.Proofs.Syntax.Written
import Middleweight.Proofs.Types.Cache
import Middleweight.Proofs.Types.Ground
import Middleweight.Proofs.Types.Open
import Middleweight.Proofs.Types.Renaming
import Middleweight.Proofs.World.Activity
import Middleweight.Proofs.World.Arguments
import Middleweight.Proofs.World.BareNames
import Middleweight.Proofs.World.BaseConstruction
import Middleweight.Proofs.World.Basic
import Middleweight.Proofs.World.Bodies
import Middleweight.Proofs.World.ConcreteRuns
import Middleweight.Proofs.World.Entry
import Middleweight.Proofs.World.FormedBodies
import Middleweight.Proofs.World.FormedMachines
import Middleweight.Proofs.World.FormedMembers
import Middleweight.Proofs.World.Heap
import Middleweight.Proofs.World.History
import Middleweight.Proofs.World.Host
import Middleweight.Proofs.World.Independence
import Middleweight.Proofs.World.LocalLevels
import Middleweight.Proofs.World.Members
import Middleweight.Proofs.World.Mirrors
import Middleweight.Proofs.World.Moments
import Middleweight.Proofs.World.Occurrences
import Middleweight.Proofs.World.Output
import Middleweight.Proofs.World.Referents
import Middleweight.Proofs.World.ResolvedTypes
import Middleweight.Proofs.World.ScopeLevels
import Middleweight.Proofs.World.Sustained
import Middleweight.Proofs.World.Walks
import Middleweight.Source.Span
import Middleweight.Syntax.Basic
import Middleweight.Syntax.Build
import Middleweight.Syntax.Decode
import Middleweight.Syntax.Encode
import Middleweight.Syntax.Operator
import Middleweight.Syntax.Terse
import Middleweight.Syntax.TypeText
import Middleweight.Text.Blank
import Middleweight.Text.Numeral
import Middleweight.Text.Printable
import Middleweight.Text.Segments
import Middleweight.Types.Binding
import Middleweight.Types.Error
import Middleweight.Types.OperatorRule
import Middleweight.Types.ResolutionCache
import Middleweight.Types.Signature
import Middleweight.Types.Ty
import Middleweight.Types.TyJson
