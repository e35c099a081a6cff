import FleetPulse.Lib.Values
import FleetPulse.Lib.Interleaving
import FleetPulse.Lib.Table
import FleetPulse.Lib.ConsumerGroup
import FleetPulse.Lib.Json
import FleetPulse.Telemetry
import FleetPulse.Api.Models
import FleetPulse.Api.Routes
import FleetPulse.Worker.Relay
import FleetPulse.Worker.Main
import FleetPulse.Pipeline.System
import FleetPulse.Pipeline.Growth
import FleetPulse.Pipeline.Durability
import FleetPulse.Pipeline.Scheduler
import FleetPulse.Pipeline.Acknowledgement
import FleetPulse.Pipeline.EndToEnd
import FleetPulse.Lib.LastWrite
import FleetPulse.Pipeline.Fleet
import FleetPulse.Pipeline.FleetOrder
import FleetPulse.Pipeline.Cache
import FleetPulse.Pipeline.Poison
import FleetPulse.Agent.Client
import FleetPulse.Agent.SpoolErrors
import FleetPulse.Assistant.Boundary
import FleetPulse.Assistant.KeyMaterial
import FleetPulse.Assistant.Registry
import FleetPulse.Assistant.Words
import FleetPulse.Pipeline.DeadLetters
import FleetPulse.Pipeline.Detection
import FleetPulse.Pipeline.Publication
import FleetPulse.Pipeline.Visibility
import FleetPulse.Reliability
import FleetPulse.Api.Security
import FleetPulse.Assistant.Providers
import FleetPulse.Agent.Config
import FleetPulse.Agent.Eviction
import FleetPulse.Pipeline.Attempts
import FleetPulse.CiContract
import FleetPulse.Agent.Main
import FleetPulse.Agent.Network
import FleetPulse.Agent.Delivery
import FleetPulse.Agent.EndToEnd
import FleetPulse.Lib.Progress
import FleetPulse.Lib.Relational
import FleetPulse.Pipeline.Recovery
import FleetPulse.Agent.SpoolFile
import FleetPulse.Pipeline.Directory
import FleetPulse.Lib.Floats
import FleetPulse.Lib.Selection
import FleetPulse.Agent.Collector
import FleetPulse.Pipeline.Backlog
import FleetPulse.Assistant.Reviews
import FleetPulse.Lib.JsonScalars
import FleetPulse.Logging
import FleetPulse.Assistant.Stability
import FleetPulse.Agent.Backlog
