import PhasedUpgrade.Actor.Contract
import PhasedUpgrade.Actor.Program
import PhasedUpgrade.Actor.Registry
import PhasedUpgrade.Actor.Stop
import PhasedUpgrade.Answers.Assignment
import PhasedUpgrade.Answers.Basic
import PhasedUpgrade.Answers.Error
import PhasedUpgrade.Answers.File
import PhasedUpgrade.Audit.Event
import PhasedUpgrade.Audit.Record
import PhasedUpgrade.Audit.Trail
import PhasedUpgrade.Collections.NameMap
import PhasedUpgrade.Collections.NameSet
import PhasedUpgrade.CommandLine.Options
import PhasedUpgrade.Decimal.FloatText
import PhasedUpgrade.Decimal.Reading
import PhasedUpgrade.Decimal.Shortest
import PhasedUpgrade.Declaration.Actor
import PhasedUpgrade.Declaration.Answers
import PhasedUpgrade.Declaration.Basic
import PhasedUpgrade.Declaration.Error
import PhasedUpgrade.Declaration.Model
import PhasedUpgrade.Declaration.Run
import PhasedUpgrade.Digest.Basic
import PhasedUpgrade.Digest.Sha256
import PhasedUpgrade.Dispatch.Judgement
import PhasedUpgrade.Dispatch.Order
import PhasedUpgrade.Dispatch.Selection
import PhasedUpgrade.Dispatch.Visit
import PhasedUpgrade.Display.Error
import PhasedUpgrade.Display.Phase
import PhasedUpgrade.Display.Run
import PhasedUpgrade.Display.Upgrade
import PhasedUpgrade.Execution.Basic
import PhasedUpgrade.Execution.Configuration
import PhasedUpgrade.Execution.Environment
import PhasedUpgrade.Execution.Lifecycle
import PhasedUpgrade.Execution.Record
import PhasedUpgrade.Files.Tree
import PhasedUpgrade.Identifier.EventId
import PhasedUpgrade.Identifier.ExecutionId
import PhasedUpgrade.Json.Numeral
import PhasedUpgrade.Json.Print
import PhasedUpgrade.Json.Record
import PhasedUpgrade.Json.Source
import PhasedUpgrade.Json.Token
import PhasedUpgrade.Json.Typed
import PhasedUpgrade.Json.Value
import PhasedUpgrade.Main
import PhasedUpgrade.Message.Basic
import PhasedUpgrade.Message.Bus
import PhasedUpgrade.Message.Catalog
import PhasedUpgrade.Message.Error
import PhasedUpgrade.Message.Model
import PhasedUpgrade.Message.Record
import PhasedUpgrade.Message.Report
import PhasedUpgrade.Message.Schema
import PhasedUpgrade.Proofs.Actor.Enrolment
import PhasedUpgrade.Proofs.Actor.Registration
import PhasedUpgrade.Proofs.Answers.Assignment
import PhasedUpgrade.Proofs.Answers.Exchange
import PhasedUpgrade.Proofs.Answers.File
import PhasedUpgrade.Proofs.Answers.Silence
import PhasedUpgrade.Proofs.Answers.Survival
import PhasedUpgrade.Proofs.Answers.Value
import PhasedUpgrade.Proofs.Audit.Binding
import PhasedUpgrade.Proofs.Audit.Bytes
import PhasedUpgrade.Proofs.Audit.Coverage
import PhasedUpgrade.Proofs.Collections.Fallible
import PhasedUpgrade.Proofs.Collections.Lookup
import PhasedUpgrade.Proofs.Decimal.Digits
import PhasedUpgrade.Proofs.Dispatch.Breach
import PhasedUpgrade.Proofs.Dispatch.Cycle
import PhasedUpgrade.Proofs.Dispatch.Judgement
import PhasedUpgrade.Proofs.Dispatch.Leading
import PhasedUpgrade.Proofs.Dispatch.Likeness
import PhasedUpgrade.Proofs.Dispatch.Order
import PhasedUpgrade.Proofs.Dispatch.Provision
import PhasedUpgrade.Proofs.Dispatch.Reading
import PhasedUpgrade.Proofs.Dispatch.Ring
import PhasedUpgrade.Proofs.Dispatch.Search
import PhasedUpgrade.Proofs.Dispatch.Selection
import PhasedUpgrade.Proofs.Dispatch.Sorting
import PhasedUpgrade.Proofs.Dispatch.Urgency
import PhasedUpgrade.Proofs.Dispatch.Whitelist
import PhasedUpgrade.Proofs.Files.Tree
import PhasedUpgrade.Proofs.Identifier.Spelling
import PhasedUpgrade.Proofs.Json.Numeral
import PhasedUpgrade.Proofs.Json.Record
import PhasedUpgrade.Proofs.Json.Scanning
import PhasedUpgrade.Proofs.Json.Spelling
import PhasedUpgrade.Proofs.Json.Typed
import PhasedUpgrade.Proofs.Message.Bus
import PhasedUpgrade.Proofs.Message.Conveyance
import PhasedUpgrade.Proofs.Message.Exchange
import PhasedUpgrade.Proofs.Message.Report
import PhasedUpgrade.Proofs.Message.Validation
import PhasedUpgrade.Proofs.Run.Advance
import PhasedUpgrade.Proofs.Run.AuditTrail
import PhasedUpgrade.Proofs.Run.Begun
import PhasedUpgrade.Proofs.Run.Chronicle
import PhasedUpgrade.Proofs.Run.Compliance
import PhasedUpgrade.Proofs.Run.Consistency
import PhasedUpgrade.Proofs.Run.Course
import PhasedUpgrade.Proofs.Run.Determinism
import PhasedUpgrade.Proofs.Run.Directory
import PhasedUpgrade.Proofs.Run.Durability
import PhasedUpgrade.Proofs.Run.Ending
import PhasedUpgrade.Proofs.Run.Environment
import PhasedUpgrade.Proofs.Run.Final
import PhasedUpgrade.Proofs.Run.Foresight
import PhasedUpgrade.Proofs.Run.Gate
import PhasedUpgrade.Proofs.Run.History
import PhasedUpgrade.Proofs.Run.Interleaving
import PhasedUpgrade.Proofs.Run.Isolation
import PhasedUpgrade.Proofs.Run.Journey
import PhasedUpgrade.Proofs.Run.Likeness
import PhasedUpgrade.Proofs.Run.Opening
import PhasedUpgrade.Proofs.Run.Passage
import PhasedUpgrade.Proofs.Run.Plan
import PhasedUpgrade.Proofs.Run.Prospect
import PhasedUpgrade.Proofs.Run.Protocol
import PhasedUpgrade.Proofs.Run.Reach
import PhasedUpgrade.Proofs.Run.Records
import PhasedUpgrade.Proofs.Run.Refusal
import PhasedUpgrade.Proofs.Run.Reordering
import PhasedUpgrade.Proofs.Run.Snapshot
import PhasedUpgrade.Proofs.Run.Soundness
import PhasedUpgrade.Proofs.Run.Stopped
import PhasedUpgrade.Proofs.Run.Trace
import PhasedUpgrade.Proofs.Run.Undertaking
import PhasedUpgrade.Proofs.Run.Versions
import PhasedUpgrade.Proofs.Run.Visits
import PhasedUpgrade.Proofs.Store.Agreement
import PhasedUpgrade.Proofs.Store.Directory
import PhasedUpgrade.Proofs.Store.Law
import PhasedUpgrade.Proofs.Store.Newest
import PhasedUpgrade.Proofs.Store.Recorded
import PhasedUpgrade.Proofs.Store.Reliable
import PhasedUpgrade.Proofs.Store.Survival
import PhasedUpgrade.Proofs.Store.Unreadable
import PhasedUpgrade.Proofs.Store.Writable
import PhasedUpgrade.Proofs.Time.Calendar
import PhasedUpgrade.Proofs.Time.Rfc3339
import PhasedUpgrade.Proofs.Toml.Document
import PhasedUpgrade.Proofs.Toml.Reader
import PhasedUpgrade.Proofs.Toml.StringForm
import PhasedUpgrade.Proofs.Toml.Tables
import PhasedUpgrade.Proofs.Toml.Value
import PhasedUpgrade.Proofs.Upgrade.Actors
import PhasedUpgrade.Proofs.Upgrade.Configuration
import PhasedUpgrade.Proofs.Upgrade.Models
import PhasedUpgrade.Proofs.Upgrade.Outcome
import PhasedUpgrade.Proofs.Upgrade.Release
import PhasedUpgrade.Proofs.Upgrade.Repositories
import PhasedUpgrade.Proofs.Upgrade.Stages
import PhasedUpgrade.Proofs.Upgrade.Switches
import PhasedUpgrade.Proofs.Upgrade.Tasks
import PhasedUpgrade.Reading.Misfit
import PhasedUpgrade.Run.Account
import PhasedUpgrade.Run.Course
import PhasedUpgrade.Run.Entry
import PhasedUpgrade.Run.Error
import PhasedUpgrade.Run.Outcome
import PhasedUpgrade.Run.Perform
import PhasedUpgrade.Run.Request
import PhasedUpgrade.Store.Basic
import PhasedUpgrade.Store.Directory
import PhasedUpgrade.Store.Journal
import PhasedUpgrade.Store.Memory
import PhasedUpgrade.Store.Watched
import PhasedUpgrade.Text.Hexadecimal
import PhasedUpgrade.Text.Quoted
import PhasedUpgrade.Text.Split
import PhasedUpgrade.Text.Utf8
import PhasedUpgrade.Time.Instant
import PhasedUpgrade.Time.Rfc3339
import PhasedUpgrade.Toml.Blank
import PhasedUpgrade.Toml.DateTime
import PhasedUpgrade.Toml.Document
import PhasedUpgrade.Toml.Literal
import PhasedUpgrade.Toml.Moment
import PhasedUpgrade.Toml.Number
import PhasedUpgrade.Toml.Print
import PhasedUpgrade.Toml.Quoted
import PhasedUpgrade.Toml.StringForm
import PhasedUpgrade.Toml.Typed
import PhasedUpgrade.Toml.Value
import PhasedUpgrade.Upgrade.Actors
import PhasedUpgrade.Upgrade.Arguments
import PhasedUpgrade.Upgrade.Commands
import PhasedUpgrade.Upgrade.Console
import PhasedUpgrade.Upgrade.Facts
import PhasedUpgrade.Upgrade.Machine
import PhasedUpgrade.Upgrade.Phases
import PhasedUpgrade.Upgrade.Release
import PhasedUpgrade.Upgrade.Settings
import PhasedUpgrade.Workflow.Basic
import PhasedUpgrade.Workflow.Phase
