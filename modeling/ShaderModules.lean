import ShaderModules.Application
import ShaderModules.Bundle
import ShaderModules.Collection
import ShaderModules.Command
import ShaderModules.CommandLine
import ShaderModules.CommandLine.Help
import ShaderModules.Compiler.External
import ShaderModules.Compiler.Options
import ShaderModules.Compiler.Result
import ShaderModules.Config.Basic
import ShaderModules.Config.Load
import ShaderModules.Config.Reading
import ShaderModules.Config.Setting
import ShaderModules.Config.Variable
import ShaderModules.Decimal
import ShaderModules.Decimal.Numeral
import ShaderModules.Event
import ShaderModules.Event.Filter
import ShaderModules.Failure
import ShaderModules.Format
import ShaderModules.Glob.Matching
import ShaderModules.Glob.Pattern
import ShaderModules.Host.FileTree
import ShaderModules.Host.OsError
import ShaderModules.Identifier
import ShaderModules.Json.Bracket
import ShaderModules.Json.Fault
import ShaderModules.Json.Fitting
import ShaderModules.Json.Literal
import ShaderModules.Json.Numeral
import ShaderModules.Json.Printer
import ShaderModules.Json.Reader
import ShaderModules.Json.Record
import ShaderModules.Json.Skip
import ShaderModules.Json.Value
import ShaderModules.Keyed
import ShaderModules.Main
import ShaderModules.Module
import ShaderModules.Output.Place
import ShaderModules.Output.Writing
import ShaderModules.Path
import ShaderModules.Preprocessor.Directive
import ShaderModules.Preprocessor.External
import ShaderModules.Preprocessor.Inliner
import ShaderModules.Preprocessor.Options
import ShaderModules.Problem
import ShaderModules.Proofs.Acceptance
import ShaderModules.Proofs.Bindings
import ShaderModules.Proofs.BundleText
import ShaderModules.Proofs.Classification
import ShaderModules.Proofs.Collecting
import ShaderModules.Proofs.CompileErrors
import ShaderModules.Proofs.Config.Layers
import ShaderModules.Proofs.Config.Leaves
import ShaderModules.Proofs.Config.Parts
import ShaderModules.Proofs.Config.Precedence
import ShaderModules.Proofs.Config.Sources
import ShaderModules.Proofs.Conservation
import ShaderModules.Proofs.Diagnostics
import ShaderModules.Proofs.Enumerating
import ShaderModules.Proofs.Envelopes
import ShaderModules.Proofs.Fallible
import ShaderModules.Proofs.FirstOffence
import ShaderModules.Proofs.Footprints
import ShaderModules.Proofs.Gating
import ShaderModules.Proofs.Glob.Bytes
import ShaderModules.Proofs.Glob.Matching
import ShaderModules.Proofs.Glob.Parsing
import ShaderModules.Proofs.Glob.Wildcards
import ShaderModules.Proofs.Host.Acts
import ShaderModules.Proofs.Host.Aliases
import ShaderModules.Proofs.Host.Lookups
import ShaderModules.Proofs.Host.Walks
import ShaderModules.Proofs.Host.WellFormed
import ShaderModules.Proofs.Independence
import ShaderModules.Proofs.Inlining.Assembly
import ShaderModules.Proofs.Inlining.Consulted
import ShaderModules.Proofs.Inlining.Directives
import ShaderModules.Proofs.Inlining.Failures
import ShaderModules.Proofs.Inlining.Layout
import ShaderModules.Proofs.Inlining.Lines
import ShaderModules.Proofs.Inlining.Places
import ShaderModules.Proofs.Inlining.Reachability
import ShaderModules.Proofs.Inlining.Reading
import ShaderModules.Proofs.Inlining.Settled
import ShaderModules.Proofs.Inlining.Substitution
import ShaderModules.Proofs.Json.Grammar
import ShaderModules.Proofs.Json.Literal
import ShaderModules.Proofs.Json.Reading
import ShaderModules.Proofs.Json.Skipping
import ShaderModules.Proofs.Listing
import ShaderModules.Proofs.Merging
import ShaderModules.Proofs.Mirroring
import ShaderModules.Proofs.ModuleText
import ShaderModules.Proofs.Outline
import ShaderModules.Proofs.Output.Leftovers
import ShaderModules.Proofs.Output.Modules
import ShaderModules.Proofs.Partition
import ShaderModules.Proofs.Path.Endings
import ShaderModules.Proofs.Path.Names
import ShaderModules.Proofs.Path.Order
import ShaderModules.Proofs.Path.Placed
import ShaderModules.Proofs.Path.Segments
import ShaderModules.Proofs.Placeholders
import ShaderModules.Proofs.PlannedExports
import ShaderModules.Proofs.Planning
import ShaderModules.Proofs.Reattaching
import ShaderModules.Proofs.Replanning
import ShaderModules.Proofs.Running
import ShaderModules.Proofs.Selection.Anchoring
import ShaderModules.Proofs.Selection.Combination
import ShaderModules.Proofs.Selection.Directories
import ShaderModules.Proofs.Selection.Extensions
import ShaderModules.Proofs.Selection.NormalForm
import ShaderModules.Proofs.Selection.Respelling
import ShaderModules.Proofs.Selection.SinglePatterns
import ShaderModules.Proofs.Spellings
import ShaderModules.Proofs.Text.Pieces
import ShaderModules.Proofs.Validity
import ShaderModules.Proofs.Workers
import ShaderModules.Run
import ShaderModules.Selection
import ShaderModules.Shell.Formatted
import ShaderModules.Shell.Launch
import ShaderModules.Shell.Run
import ShaderModules.Shell.Script
import ShaderModules.Shell.Standard
import ShaderModules.Shell.Token
import ShaderModules.Stage
import ShaderModules.Summary
import ShaderModules.Synthesis
import ShaderModules.Text.Blank
import ShaderModules.Text.Escape
import ShaderModules.Text.Lines
import ShaderModules.Text.Lossy
import ShaderModules.Text.Printable
import ShaderModules.Text.Quoted
import ShaderModules.Text.Search
import ShaderModules.Text.Shown
import ShaderModules.Toml.Document
import ShaderModules.Toml.Scalar
import ShaderModules.Toml.Table
import ShaderModules.Toml.Text
import ShaderModules.Toml.Value
import ShaderModules.Tool
import ShaderModules.Transform
