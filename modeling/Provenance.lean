import Provenance.Catalogue
import Provenance.CommandLine
import Provenance.Fault
import Provenance.FileSystem
import Provenance.Flags
import Provenance.Flags.Family
import Provenance.Flags.Json
import Provenance.Job
import Provenance.Json
import Provenance.Json.Comments
import Provenance.Json.Cursor
import Provenance.Json.Fault
import Provenance.Json.Numeral
import Provenance.Json.Reader
import Provenance.Json.Record
import Provenance.Json.Skip
import Provenance.Json.Text
import Provenance.Location
import Provenance.Log
import Provenance.Main
import Provenance.Manifest
import Provenance.Number
import Provenance.Number.Binary64
import Provenance.Number.Shortest
import Provenance.Program
import Provenance.Project
import Provenance.Recorder
import Provenance.Report
import Provenance.SourceMap
import Provenance.SourceMap.Json
import Provenance.Span
import Provenance.Table
import Provenance.Text.Quoted
import Provenance.Text.Unprintable
import Provenance.Text.Wording
import Provenance.Proofs.LastWrite
import Provenance.Proofs.ReverseIndex
import Provenance.Proofs.Translation
import Provenance.Proofs.RepeatedMoves
import Provenance.Proofs.Merge
import Provenance.Proofs.LocationOrder
import Provenance.Proofs.LocationText
import Provenance.Proofs.CanonicalForm
import Provenance.Proofs.Rebuilding
import Provenance.Proofs.MappedOffsets
import Provenance.Proofs.ClosedRange
import Provenance.Proofs.RecorderRun
import Provenance.Proofs.Layout
import Provenance.Proofs.Emission
import Provenance.Proofs.Assembly
import Provenance.Proofs.InterfaceText
import Provenance.Proofs.Faithfulness
import Provenance.Proofs.Acceptance
import Provenance.Proofs.LocalLookup
import Provenance.Proofs.Multiplicity
import Provenance.Proofs.Rejection
import Provenance.Proofs.OffsetRange
import Provenance.Proofs.Coverage
import Provenance.Proofs.Json.Reading
import Provenance.Proofs.Json.Tokens
import Provenance.Proofs.Json.Scalars
import Provenance.Proofs.Json.Records
import Provenance.Proofs.Json.Writing
import Provenance.Proofs.Json.Results
import Provenance.Proofs.SourceMapText
import Provenance.Proofs.SettingText
import Provenance.Proofs.Json.Skipping
import Provenance.Proofs.Json.Document
import Provenance.Proofs.Json.Form
import Provenance.Proofs.Json.Passing
import Provenance.Proofs.Json.Schema
import Provenance.Proofs.Json.Choice
import Provenance.Proofs.Json.Comments
import Provenance.Proofs.Json.CommentPlaces
import Provenance.Proofs.Json.Zones
import Provenance.Proofs.Json.Lines
import Provenance.Proofs.ConfigurationText
import Provenance.Proofs.ConfigurationLines
import Provenance.Proofs.ManifestText
import Provenance.Proofs.ReportText
import Provenance.Proofs.MachineText
import Provenance.Proofs.FileSystem.Paths
import Provenance.Proofs.FileSystem.Walk
import Provenance.Proofs.FileSystem.Gains
import Provenance.Proofs.Planning
import Provenance.Proofs.LookupForms
import Provenance.Proofs.FileEffects
import Provenance.Proofs.Rerun
import Provenance.Proofs.Confinement
import Provenance.Proofs.FlagHistory
import Provenance.Proofs.FlagContents
import Provenance.Proofs.FeatureSources
import Provenance.Proofs.CommandLineForms
