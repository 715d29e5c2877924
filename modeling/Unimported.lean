import Unimported.Text.Blank
import Unimported.Text.Utf8
import Unimported.Path.Basic
import Unimported.Source.Signature
import Unimported.Source.Export
import Unimported.Source.Import
import Unimported.Source.File
import Unimported.Log
import Unimported.Scan.Journal
import Unimported.Scan.Check
import Unimported.Scan.Detect
import Unimported.Scan.Run
import Unimported.Report.Basic
import Unimported.Glob.Token
import Unimported.Glob.Parse
import Unimported.Glob.Match
import Unimported.Glob.Strategy
import Unimported.Glob.Expression
import Unimported.Settings.Basic
import Unimported.Settings.Exclude
import Unimported.Yaml.Spot
import Unimported.Yaml.Scalar
import Unimported.Yaml.Token
import Unimported.Yaml.Node
import Unimported.Toml.Value
import Unimported.Toml.Scalar
import Unimported.Toml.Document
import Unimported.Settings.Overlay
import Unimported.Settings.FromYaml
import Unimported.Settings.FromToml
import Unimported.Disk.Basic
import Unimported.Settings.Load
import Unimported.Number.Double
import Unimported.Number.Decimal
import Unimported.Json.Value
import Unimported.Report.Json
import Unimported.Terminal.Style
import Unimported.Terminal.Table
import Unimported.Report.Terminal
import Unimported.Report.Format
import Unimported.Text.Lines
import Unimported.Ignore.Rule
import Unimported.Ignore.Level
import Unimported.Discovery.Walk
import Unimported.Discovery.Find
import Unimported.Scan.Project
import Unimported.Text.Unprintable
import Unimported.Text.Quoted
import Unimported.Settings.Summary
import Unimported.CommandLine.Options
import Unimported.CommandLine.Arguments
import Unimported.CommandLine.Help
import Unimported.CommandLine.Run
import Unimported.Main
import Unimported.Proofs.Source.Mention
import Unimported.Proofs.Source.Search
import Unimported.Proofs.Source.WellFormed
import Unimported.Proofs.Scan.Record
import Unimported.Proofs.Scan.Verdict
import Unimported.Proofs.Scan.Batches
import Unimported.Proofs.Scan.Phases
import Unimported.Proofs.Scan.Partition
import Unimported.Proofs.Scan.Fault
import Unimported.Proofs.Scan.Protocol
import Unimported.Proofs.Scan.Reads
import Unimported.Proofs.Path.Order
import Unimported.Proofs.Path.Join
import Unimported.Proofs.Source.Reference
import Unimported.Proofs.Disk.Tree
import Unimported.Proofs.Disk.Follow
import Unimported.Proofs.Disk.Resolve
import Unimported.Proofs.Discovery.Arrange
import Unimported.Proofs.Discovery.Walk
import Unimported.Proofs.Discovery.Candidates
import Unimported.Proofs.Discovery.Exact
import Unimported.Proofs.Discovery.Below
import Unimported.Proofs.Scan.Increment
import Unimported.Proofs.Scan.Once
import Unimported.Proofs.Scan.Relocation
import Unimported.Proofs.Source.Pattern
import Unimported.Proofs.Source.Scan
import Unimported.Proofs.Source.Statement
import Unimported.Proofs.Source.Call
import Unimported.Proofs.Source.Line
import Unimported.Proofs.Discovery.Respect
import Unimported.Proofs.Settings.Exclude
import Unimported.Proofs.Discovery.Algebra
import Unimported.Proofs.Disk.Write
import Unimported.Proofs.CommandLine.Stages
import Unimported.Proofs.CommandLine.Outcome
import Unimported.Proofs.Report.Elapsed
import Unimported.Proofs.CommandLine.Tuning
import Unimported.Proofs.Text.Utf8
import Unimported.Proofs.Path.Spelling
import Unimported.Proofs.Path.Relative
import Unimported.Proofs.Path.Name
import Unimported.Proofs.Source.Token
import Unimported.Proofs.Source.Exported
import Unimported.Proofs.Glob.Language
import Unimported.Proofs.Glob.Directory
import Unimported.Proofs.Discovery.Directories
import Unimported.Proofs.Json.Grammar
import Unimported.Proofs.Json.Word
import Unimported.Proofs.Json.Quoted
import Unimported.Proofs.Json.Reader
import Unimported.Proofs.Json.Decimal
import Unimported.Proofs.Json.Written
import Unimported.Proofs.Report.Document
import Unimported.Proofs.Terminal.Table
import Unimported.Proofs.Terminal.Escape
import Unimported.Proofs.Report.Lines
import Unimported.Proofs.Report.Tables
import Unimported.Proofs.Scan.Assets
import Unimported.Proofs.Fallible
import Unimported.Proofs.Settings.Fields
import Unimported.Proofs.Disk.Shape
import Unimported.Proofs.CommandLine.Effective
import Unimported.Proofs.Path.Congruence
import Unimported.Proofs.Disk.Spelling
import Unimported.Proofs.Ignore.Spelling
import Unimported.Proofs.Discovery.Spelling
import Unimported.Proofs.Toml.Content
import Unimported.Proofs.Yaml.Plain
import Unimported.Proofs.Yaml.Kept
import Unimported.Proofs.Yaml.Skip
import Unimported.Proofs.Yaml.Start
import Unimported.Proofs.Yaml.Root
import Unimported.Proofs.Settings.Lead
import Unimported.Proofs.Settings.QuotedKey
import Unimported.Proofs.Settings.Form
