import ZoneKeeper.Address.IPv4
import ZoneKeeper.Address.IPv6
import ZoneKeeper.Address.Network
import ZoneKeeper.Batch.Basic
import ZoneKeeper.Batch.Operation
import ZoneKeeper.Batch.Plan
import ZoneKeeper.Batch.Review
import ZoneKeeper.CheckIn.Basic
import ZoneKeeper.Engine.Act
import ZoneKeeper.Engine.Attempt
import ZoneKeeper.Engine.Commit
import ZoneKeeper.Engine.Locks
import ZoneKeeper.Engine.Request
import ZoneKeeper.Error
import ZoneKeeper.Feed.Change
import ZoneKeeper.Feed.Publisher
import ZoneKeeper.Files.Disk
import ZoneKeeper.Files.Path
import ZoneKeeper.Instant
import ZoneKeeper.Json.Basic
import ZoneKeeper.Json.Decode
import ZoneKeeper.Json.Encode
import ZoneKeeper.Json.Lexeme
import ZoneKeeper.Json.Number
import ZoneKeeper.Json.Parser
import ZoneKeeper.Json.Printer
import ZoneKeeper.Main
import ZoneKeeper.Name.DomainName
import ZoneKeeper.Name.Subname
import ZoneKeeper.Program
import ZoneKeeper.Proofs.Address.IPv4
import ZoneKeeper.Proofs.Address.IPv6
import ZoneKeeper.Proofs.Address.Network
import ZoneKeeper.Proofs.Batch.Bounds
import ZoneKeeper.Proofs.Batch.Order
import ZoneKeeper.Proofs.Batch.Plan
import ZoneKeeper.Proofs.Batch.Snapshot
import ZoneKeeper.Proofs.Batch.Verdict
import ZoneKeeper.Proofs.CheckIn.Batch
import ZoneKeeper.Proofs.CheckIn.Networks
import ZoneKeeper.Proofs.CheckIn.Setting
import ZoneKeeper.Proofs.CheckIn.Shared
import ZoneKeeper.Proofs.CheckIn.Table
import ZoneKeeper.Proofs.Engine.Acceptance
import ZoneKeeper.Proofs.Engine.Application
import ZoneKeeper.Proofs.Engine.Attempt
import ZoneKeeper.Proofs.Engine.Commit
import ZoneKeeper.Proofs.Engine.Course
import ZoneKeeper.Proofs.Engine.Creation
import ZoneKeeper.Proofs.Engine.Endings
import ZoneKeeper.Proofs.Engine.Exclusion
import ZoneKeeper.Proofs.Engine.Faults
import ZoneKeeper.Proofs.Engine.Guard
import ZoneKeeper.Proofs.Engine.Locks
import ZoneKeeper.Proofs.Engine.Meaning
import ZoneKeeper.Proofs.Engine.Order
import ZoneKeeper.Proofs.Engine.Pace
import ZoneKeeper.Proofs.Engine.Renewal
import ZoneKeeper.Proofs.Engine.Repetition
import ZoneKeeper.Proofs.Engine.Request
import ZoneKeeper.Proofs.Engine.Respelling
import ZoneKeeper.Proofs.Engine.Retries
import ZoneKeeper.Proofs.Engine.Steps
import ZoneKeeper.Proofs.Engine.Tenure
import ZoneKeeper.Proofs.Engine.Transience
import ZoneKeeper.Proofs.Engine.Undisturbed
import ZoneKeeper.Proofs.Engine.Upkeep
import ZoneKeeper.Proofs.Feed.Ensemble
import ZoneKeeper.Proofs.Feed.Mirror
import ZoneKeeper.Proofs.Feed.Publisher
import ZoneKeeper.Proofs.Feed.Publishing
import ZoneKeeper.Proofs.Files.Disk
import ZoneKeeper.Proofs.Files.Interruption
import ZoneKeeper.Proofs.Files.Path
import ZoneKeeper.Proofs.Instant
import ZoneKeeper.Proofs.Json.Lexeme
import ZoneKeeper.Proofs.Json.Printer
import ZoneKeeper.Proofs.Name.DomainName
import ZoneKeeper.Proofs.Name.Wire
import ZoneKeeper.Proofs.Record.AddressPrefix
import ZoneKeeper.Proofs.Record.Addresses
import ZoneKeeper.Proofs.Record.Bearing
import ZoneKeeper.Proofs.Record.Canonical
import ZoneKeeper.Proofs.Record.Counts
import ZoneKeeper.Proofs.Record.Delimited
import ZoneKeeper.Proofs.Record.FieldKind
import ZoneKeeper.Proofs.Record.Fixed
import ZoneKeeper.Proofs.Record.Form
import ZoneKeeper.Proofs.Record.Identity
import ZoneKeeper.Proofs.Record.Location
import ZoneKeeper.Proofs.Record.Presentation
import ZoneKeeper.Proofs.Record.Reader
import ZoneKeeper.Proofs.Record.Response
import ZoneKeeper.Proofs.Record.ServiceParameters
import ZoneKeeper.Proofs.Record.ServiceValue
import ZoneKeeper.Proofs.Record.ServiceWire
import ZoneKeeper.Proofs.Record.Set
import ZoneKeeper.Proofs.Record.Size
import ZoneKeeper.Proofs.Record.Spelling
import ZoneKeeper.Proofs.Record.Width
import ZoneKeeper.Proofs.RecordType.Bitmap
import ZoneKeeper.Proofs.RecordType.Code
import ZoneKeeper.Proofs.Service.Privacy
import ZoneKeeper.Proofs.Sorted.Map
import ZoneKeeper.Proofs.Store.Crash
import ZoneKeeper.Proofs.Store.Document
import ZoneKeeper.Proofs.Store.File
import ZoneKeeper.Proofs.Store.Recovery
import ZoneKeeper.Proofs.Store.Refinement
import ZoneKeeper.Proofs.Text.Delimited
import ZoneKeeper.Proofs.Text.Numeral
import ZoneKeeper.Proofs.Text.Split
import ZoneKeeper.Proofs.Text.Token
import ZoneKeeper.Proofs.Text.Utf8
import ZoneKeeper.Proofs.Text.Worth
import ZoneKeeper.Proofs.Traffic.Accord
import ZoneKeeper.Proofs.Traffic.Announcement
import ZoneKeeper.Proofs.Traffic.Atomicity
import ZoneKeeper.Proofs.Traffic.Basic
import ZoneKeeper.Proofs.Traffic.Chain
import ZoneKeeper.Proofs.Traffic.Contents
import ZoneKeeper.Proofs.Traffic.Discipline
import ZoneKeeper.Proofs.Traffic.Exclusivity
import ZoneKeeper.Proofs.Traffic.Naming
import ZoneKeeper.Proofs.Traffic.Ownership
import ZoneKeeper.Proofs.Traffic.Readers
import ZoneKeeper.Proofs.Traffic.Regimes
import ZoneKeeper.Proofs.Traffic.Registry
import ZoneKeeper.Proofs.Traffic.Replay
import ZoneKeeper.Proofs.Traffic.Scene
import ZoneKeeper.Proofs.Traffic.Sequence
import ZoneKeeper.Proofs.Traffic.Serial
import ZoneKeeper.Proofs.Traffic.Turns
import ZoneKeeper.Proofs.Traffic.Undisturbed
import ZoneKeeper.Proofs.Zone.Name
import ZoneKeeper.Proofs.Zone.Owner
import ZoneKeeper.Proofs.Zone.Spelling
import ZoneKeeper.Proofs.Zone.Table
import ZoneKeeper.Record.AddressPrefix
import ZoneKeeper.Record.Canonical
import ZoneKeeper.Record.Field
import ZoneKeeper.Record.FieldKind
import ZoneKeeper.Record.Flaw
import ZoneKeeper.Record.Location
import ZoneKeeper.Record.ServiceParameters
import ZoneKeeper.Record.Set
import ZoneKeeper.RecordType.Bitmap
import ZoneKeeper.RecordType.Code
import ZoneKeeper.RecordType.Policy
import ZoneKeeper.Service.Daemon
import ZoneKeeper.Service.Host
import ZoneKeeper.Service.Line
import ZoneKeeper.Settings.Basic
import ZoneKeeper.Settings.Environment
import ZoneKeeper.Simulation.Basic
import ZoneKeeper.Simulation.Schedule
import ZoneKeeper.Simulation.Session
import ZoneKeeper.Simulation.World
import ZoneKeeper.Sorted.Map
import ZoneKeeper.Store.Basic
import ZoneKeeper.Store.Call
import ZoneKeeper.Store.Document
import ZoneKeeper.Store.File
import ZoneKeeper.Text.Base64
import ZoneKeeper.Text.Basic
import ZoneKeeper.Text.Decimal
import ZoneKeeper.Text.Escape
import ZoneKeeper.Text.Token
import ZoneKeeper.Text.Utf8
import ZoneKeeper.Zone.Basic
import ZoneKeeper.Zone.Table
