import Telemetry.Agent.Delivery
import Telemetry.Agent.Factories
import Telemetry.Agent.Installation
import Telemetry.Agent.Lifecycle
import Telemetry.Agent.Running
import Telemetry.Batch.Handle
import Telemetry.Batch.Request
import Telemetry.Batch.Slots
import Telemetry.Batch.Summary
import Telemetry.Cancellation
import Telemetry.Component.Factory
import Telemetry.Component.Lifecycle
import Telemetry.Component.Registry
import Telemetry.Component.Settings
import Telemetry.Component.Shared
import Telemetry.Configuration.Builder
import Telemetry.Configuration.Decode
import Telemetry.Configuration.Environment
import Telemetry.Configuration.Overlay
import Telemetry.Configuration.Service
import Telemetry.Configuration.Sources
import Telemetry.Decimal.Binary64
import Telemetry.Decimal.Layout
import Telemetry.Digraph
import Telemetry.Exporter.Attempt
import Telemetry.Exporter.Retry
import Telemetry.Exporter.Policy
import Telemetry.Exporter.Sending
import Telemetry.Failure.Component
import Telemetry.Failure.Consume
import Telemetry.Flow.AttributeEdit
import Telemetry.Flow.Consumer
import Telemetry.Flow.Gathering
import Telemetry.Flow.ItemCounts
import Telemetry.Flow.Sink
import Telemetry.Gzip.Huffman
import Telemetry.Gzip.Inflate
import Telemetry.Gzip.Member
import Telemetry.Http.Exchange
import Telemetry.Http.Posting
import Telemetry.Http.Reception
import Telemetry.Identity.Id
import Telemetry.Identity.Node
import Telemetry.Identity.Signal
import Telemetry.Json.Reader
import Telemetry.Json.Value
import Telemetry.Json.Writer
import Telemetry.Main
import Telemetry.Net.SocketAddress
import Telemetry.Pipeline.Graph
import Telemetry.Pipeline.Service
import Telemetry.Pipeline.Validation
import Telemetry.Pipeline.Wiring
import Telemetry.Queue.Index
import Telemetry.Queue.Line
import Telemetry.Queue.Memory
import Telemetry.Queue.Persistent
import Telemetry.Queue.Sending
import Telemetry.Scheduling.Turns
import Telemetry.Storage.Client
import Telemetry.Storage.FileSystem
import Telemetry.Storage.Files
import Telemetry.Storage.Memory
import Telemetry.Storage.Vault
import Telemetry.Table
import Telemetry.Testbed.Bench
import Telemetry.Testbed.FaultyVault
import Telemetry.Testbed.GatedQueue
import Telemetry.Testbed.Kit
import Telemetry.Testbed.Sample
import Telemetry.Testbed.ScriptedExport
import Telemetry.Testbed.ServiceTrial
import Telemetry.Testbed.SharedTrial
import Telemetry.Testbed.StorageTrial
import Telemetry.Testbed.Trial
import Telemetry.Text.Base64
import Telemetry.Text.Blank
import Telemetry.Text.Duration
import Telemetry.Text.Hex
import Telemetry.Text.LittleEndian
import Telemetry.Text.Quoted
import Telemetry.Text.Scan
import Telemetry.Text.Split
import Telemetry.Toml.Document
import Telemetry.Toml.Literal
import Telemetry.Wire.Decode
import Telemetry.Wire.Encode
import Telemetry.Wire.JsonForm
import Telemetry.Wire.Message
import Telemetry.Wire.Schema
import Telemetry.Wire.Varint
import Telemetry.Proofs.Queue.FileRuns
import Telemetry.Proofs.Exporter.Retention
import Telemetry.Proofs.Pipeline.Service
import Telemetry.Proofs.Agent.Custody
import Telemetry.Proofs.Queue.Counters
import Telemetry.Proofs.Queue.Traffic
import Telemetry.Proofs.Queue.Turnover
import Telemetry.Proofs.Batch.Values
import Telemetry.Proofs.Batch.Codec
import Telemetry.Proofs.Queue.Forfeits
import Telemetry.Proofs.Queue.Order
import Telemetry.Proofs.Storage.Isolation
import Telemetry.Proofs.Exporter.Accounts
import Telemetry.Proofs.Pipeline.Verdicts
import Telemetry.Proofs.Queue.Release
import Telemetry.Proofs.Pipeline.Extensions
import Telemetry.Proofs.Agent.Traces
import Telemetry.Proofs.Pipeline.Entries
import Telemetry.Proofs.Component.Instances
import Telemetry.Proofs.Flow.Conservation
import Telemetry.Proofs.Storage.Refinement
import Telemetry.Proofs.Queue.Decoding
import Telemetry.Proofs.Identity.Grammar
import Telemetry.Proofs.Pipeline.Unlisted
import Telemetry.Proofs.Queue.Crossing
import Telemetry.Proofs.Digraph.Least
import Telemetry.Proofs.Pipeline.Order
import Telemetry.Proofs.Queue.Offers
import Telemetry.Proofs.Queue.FailedStarts
import Telemetry.Proofs.Exporter.Retries
import Telemetry.Proofs.Exporter.Punctual
import Telemetry.Proofs.Pipeline.Profiles
import Telemetry.Proofs.Flow.Dispatch
import Telemetry.Proofs.Agent.AttributeEdits
import Telemetry.Proofs.Agent.AttributeMaps
import Telemetry.Proofs.Agent.ItemCounts
import Telemetry.Proofs.Configuration.Overlay
import Telemetry.Proofs.Agent.StrayKeys
import Telemetry.Proofs.Storage.Crashes
import Telemetry.Proofs.Failure.Leaves
import Telemetry.Proofs.Gzip.Limits
import Telemetry.Proofs.Http.Receptions
