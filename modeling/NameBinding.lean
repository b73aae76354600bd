import NameBinding.CommandLine
import NameBinding.Diagnosis
import NameBinding.Diagnostic
import NameBinding.Discovery
import NameBinding.Disk
import NameBinding.Import
import NameBinding.ImportTable
import NameBinding.ImportTable.Build
import NameBinding.Json
import NameBinding.Locals
import NameBinding.Main
import NameBinding.Manifest
import NameBinding.Manifest.Fault
import NameBinding.Manifest.Item
import NameBinding.Manifest.Reader
import NameBinding.Manifest.Word
import NameBinding.Module
import NameBinding.Options
import NameBinding.Outcome
import NameBinding.Path
import NameBinding.Proofs.Agreement
import NameBinding.Proofs.Bindings
import NameBinding.Proofs.Contribution
import NameBinding.Proofs.Dependence
import NameBinding.Proofs.Distinct
import NameBinding.Proofs.Equivalence
import NameBinding.Proofs.Exposure
import NameBinding.Proofs.Ownership
import NameBinding.Proofs.Place
import NameBinding.Proofs.Precedence
import NameBinding.Proofs.Redundancy
import NameBinding.Proofs.Registry
import NameBinding.Proofs.Soundness
import NameBinding.Proofs.Variation
import NameBinding.Reference
import NameBinding.Registry
import NameBinding.Report
import NameBinding.Resolver
import NameBinding.Scope
import NameBinding.SourceUnit
import NameBinding.Span
import NameBinding.Symbol
import NameBinding.Text
import NameBinding.Tool
import NameBinding.Tool.Message
import NameBinding.Workers
import NameBinding.Proofs.Naming
import NameBinding.Proofs.Qualification
import NameBinding.Proofs.Suggestion
import NameBinding.Proofs.Registration
import NameBinding.Proofs.Address
import NameBinding.Proofs.Tiers
import NameBinding.Proofs.Classification
import NameBinding.Proofs.Collision
import NameBinding.Proofs.Locality
import NameBinding.Proofs.Shown
import NameBinding.Proofs.ImportLog
import NameBinding.Proofs.ImportOrder
import NameBinding.Proofs.Reexport
import NameBinding.Proofs.Narrowing
import NameBinding.Proofs.Accounting
import NameBinding.Proofs.SourceLines
import NameBinding.Proofs.FaultyLines
import NameBinding.Proofs.Grammar
import NameBinding.Proofs.LineForms
import NameBinding.Proofs.Acceptance
import NameBinding.Proofs.Layout
import NameBinding.Proofs.Ledger
import NameBinding.Proofs.FirstBinding
import NameBinding.Proofs.OwnName
import NameBinding.Proofs.CheckedReads
import NameBinding.Proofs.Bounds
import NameBinding.Proofs.Writing
import NameBinding.Proofs.Lowering
import NameBinding.Proofs.Moving
import NameBinding.Proofs.Joining
import NameBinding.Proofs.WellFormed
import NameBinding.Proofs.JsonSyntax
import NameBinding.Proofs.JsonLayout
import NameBinding.Proofs.Ascii
import NameBinding.Proofs.ReportText
import NameBinding.Proofs.Workers
import NameBinding.Proofs.Messages
import NameBinding.Proofs.RunAccount
import NameBinding.Proofs.ExitCode
import NameBinding.Proofs.Restriction
import NameBinding.Proofs.Turns
import NameBinding.Proofs.Relocation
import NameBinding.Proofs.Additions
import NameBinding.Proofs.Scanning
import NameBinding.Proofs.Presentation
import NameBinding.Proofs.Spacing
import NameBinding.Proofs.SpanText
import NameBinding.Proofs.Complaints
import NameBinding.Proofs.Spans
import NameBinding.Proofs.Named
import NameBinding.Proofs.PrintedLines
import NameBinding.Proofs.Folders
import NameBinding.Proofs.Interfaces
import NameBinding.Proofs.DottedPath
import NameBinding.Proofs.NormalPath
import NameBinding.Proofs.SearchRoots
import NameBinding.Proofs.ArgumentList
import NameBinding.Proofs.NameIndex
