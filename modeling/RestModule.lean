import RestModule.CommandLine.Arguments
import RestModule.CommandLine.Run
import RestModule.CommandLine.Usage
import RestModule.Config.Basic
import RestModule.Config.Key
import RestModule.Config.Reading
import RestModule.Decimal.Binary
import RestModule.Decimal.Layout
import RestModule.Decimal.Shortest
import RestModule.Disk.Basic
import RestModule.Disk.Host
import RestModule.Disk.Store
import RestModule.Distinct
import RestModule.Document.Basic
import RestModule.Document.Node
import RestModule.Document.Reading
import RestModule.Error
import RestModule.Fault
import RestModule.FilePath
import RestModule.Json.Number
import RestModule.Json.Reader
import RestModule.Json.Text
import RestModule.Log.Filter
import RestModule.Log.Level
import RestModule.Log.Line
import RestModule.Log.Settings
import RestModule.Main
import RestModule.Naming
import RestModule.Proofs.FilePath
import RestModule.Proofs.Store.FileSystem
import RestModule.Run.Event
import RestModule.Run.Generate
import RestModule.Run.Plan
import RestModule.Run.Progress
import RestModule.Run.Stage
import RestModule.Sheet.Basic
import RestModule.Sheet.Bundle
import RestModule.Sheet.Model
import RestModule.Sheet.Resource
import RestModule.Source.Field
import RestModule.Source.Import
import RestModule.Source.Signature
import RestModule.Spec.Components
import RestModule.Spec.Definition
import RestModule.Spec.Import
import RestModule.Spec.Operation
import RestModule.Spec.Reachable
import RestModule.Spec.Schema
import RestModule.Spec.SchemaType
import RestModule.Spec.TypeMap
import RestModule.Store.Basic
import RestModule.Store.Memory
import RestModule.Store.Recording
import RestModule.Summary
import RestModule.Template.Builtin
import RestModule.Template.Library
import RestModule.Template.Text
import RestModule.Text.Blank
import RestModule.Text.Case
import RestModule.Text.CaseTable
import RestModule.Text.Lines
import RestModule.Text.Split
import RestModule.Toml.Reader
import RestModule.Toml.Scalar
import RestModule.Toml.Table
import RestModule.Toml.Text
import RestModule.Yaml.Cursor
import RestModule.Yaml.Event
import RestModule.Yaml.Reader
import RestModule.Yaml.Resolve
import RestModule.Yaml.Scalar
import RestModule.Yaml.Tag
import RestModule.Yaml.Token
import RestModule.Proofs.Run.Launch
import RestModule.Proofs.Run.Course
import RestModule.Proofs.Run.Sheets
import RestModule.Proofs.Run.Execution
import RestModule.Proofs.Spec.Failure
import RestModule.Proofs.Run.Failure
import RestModule.Proofs.Run.Protection
import RestModule.Proofs.Document.Keys
import RestModule.Proofs.Spec.Closed
import RestModule.Proofs.Run.Memory
import RestModule.Proofs.FilePath.Parts
import RestModule.Proofs.Store.Task
import RestModule.Proofs.Run.Interruption
import RestModule.Proofs.Run.Tasks
import RestModule.Proofs.Run.Regeneration
import RestModule.Proofs.Naming
import RestModule.Proofs.Template.Lines
import RestModule.Proofs.Sheet.Class
import RestModule.Proofs.Spec.Names
import RestModule.Proofs.Run.Sources
import RestModule.Proofs.Sheet.Place
import RestModule.Proofs.Run.Containment
import RestModule.Proofs.FilePath.Steps
import RestModule.Proofs.Disk.Tree
import RestModule.Proofs.Disk.Growth
import RestModule.Proofs.Run.Recorded
import RestModule.Proofs.Run.Rehearsal
import RestModule.Proofs.Source.Heads
import RestModule.Proofs.Spec.Grammar
import RestModule.Proofs.Spec.Schema
import RestModule.Proofs.Spec.Acceptance
import RestModule.Proofs.Spec.Mention
import RestModule.Proofs.Spec.Isolation
import RestModule.Proofs.Document.Offence
import RestModule.Proofs.Json.Number
import RestModule.Proofs.Json.Text
import RestModule.Proofs.Json.Writing
import RestModule.Proofs.Json.Reading
import RestModule.Proofs.Naming.Legal
import RestModule.Proofs.Source.Identifiers
import RestModule.Proofs.Source.Imports
import RestModule.Proofs.Sheet.Imports
import RestModule.Proofs.Sheet.Clash
import RestModule.Proofs.Run.Models
import RestModule.Proofs.Source.Routes
import RestModule.Proofs.Naming.Camel
import RestModule.Proofs.Sheet.Apart
import RestModule.Proofs.Run.Decisions
import RestModule.Proofs.Run.Overwrite
import RestModule.Proofs.Spec.Larger
import RestModule.Proofs.Spec.Addition
import RestModule.Proofs.Spec.Unread
import RestModule.Proofs.Run.Stages
import RestModule.Proofs.Spec.Uses
import RestModule.Proofs.Sheet.Named
import RestModule.Proofs.Sheet.Used
import RestModule.Proofs.Naming.Distinct
import RestModule.Proofs.Spec.JavaType
import RestModule.Proofs.Sheet.Arguments
import RestModule.Proofs.Spec.Methods
import RestModule.Proofs.Source.Tokens
import RestModule.Proofs.Sheet.Members
import RestModule.Proofs.Spec.Reachable
import RestModule.Proofs.Spec.Body
import RestModule.Proofs.Run.References
import RestModule.Proofs.Template.Cut
import RestModule.Proofs.Template.Placeholders
import RestModule.Proofs.Template.Library
import RestModule.Proofs.Template.Session
import RestModule.Proofs.Template.Bare
import RestModule.Proofs.Naming.Bare
import RestModule.Proofs.Sheet.Bare
import RestModule.Proofs.Run.Bare
import RestModule.Proofs.Spec.Parameters
import RestModule.Proofs.Spec.Walks
import RestModule.Proofs.Naming.Search
import RestModule.Proofs.Sheet.Getters
import RestModule.Proofs.Source.Literals
import RestModule.Proofs.Sheet.Annotations
import RestModule.Proofs.Naming.Stable
import RestModule.Proofs.Spec.Path
