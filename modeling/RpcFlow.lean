import RpcFlow.Listeners
import RpcFlow.Main
import RpcFlow.ReplayLog
import RpcFlow.Report.Config
import RpcFlow.Report.Run
import RpcFlow.Subscription
import RpcFlow.Proofs.Engine.Changes
import RpcFlow.Proofs.Engine.Turns
import RpcFlow.Proofs.Engine.Accounting
import RpcFlow.Proofs.Engine.Finishing
import RpcFlow.Proofs.Engine.History
import RpcFlow.Proofs.Engine.Sharing
import RpcFlow.Proofs.Engine.Contracts
import RpcFlow.Proofs.Engine.Batches
import RpcFlow.Proofs.Engine.BuiltIn
import RpcFlow.Proofs.Strategy.Courses
import RpcFlow.Proofs.Engine.Effects
import RpcFlow.Proofs.Engine.Phases
import RpcFlow.Proofs.Engine.Delivery
import RpcFlow.Proofs.Engine.Agreement
import RpcFlow.Proofs.Engine.Deeds
import RpcFlow.Proofs.Engine.Traces
import RpcFlow.Proofs.Engine.Windows
import RpcFlow.Proofs.Engine.Draining
import RpcFlow.Proofs.Json.Printing
import RpcFlow.Proofs.Json.Reading
import RpcFlow.Proofs.Json.Validation
import RpcFlow.Proofs.Request.Text
import RpcFlow.Proofs.Client.Descriptions
import RpcFlow.Proofs.Engine.Backend
import RpcFlow.Proofs.Engine.Requests
import RpcFlow.Proofs.Engine.Transparency
import RpcFlow.Proofs.Engine.Together
import RpcFlow.Proofs.Engine.Verbs
import RpcFlow.Proofs.Strategy.Landings
import RpcFlow.Proofs.Engine.Landing
import RpcFlow.Proofs.Client.Configured
import RpcFlow.Proofs.Client.Accepted
import RpcFlow.Proofs.Strategy.Trails
import RpcFlow.Proofs.Engine.Campaigns
import RpcFlow.Proofs.Engine.Chronicle
import RpcFlow.Proofs.Engine.Retries
import RpcFlow.Proofs.Engine.Shutdown
import RpcFlow.Proofs.Engine.Outcomes
import RpcFlow.Proofs.Engine.Caching
import RpcFlow.Proofs.Engine.Schedule
import RpcFlow.Proofs.Engine.Alike
import RpcFlow.Proofs.Engine.Bare
import RpcFlow.Proofs.Engine.Twins
import RpcFlow.Proofs.Engine.Mishaps
import RpcFlow.Proofs.Engine.Acts
import RpcFlow.Proofs.Engine.Lulls
import RpcFlow.Proofs.Engine.Distances
import RpcFlow.Proofs.Engine.Descent
import RpcFlow.Proofs.Engine.Commitments
import RpcFlow.Proofs.Engine.Ebbing
import RpcFlow.Proofs.Engine.Trackers
import RpcFlow.Proofs.Engine.Diligence
import RpcFlow.Proofs.Engine.Exhaustion
import RpcFlow.Proofs.Engine.Selection
import RpcFlow.Proofs.Engine.Entries
import RpcFlow.Proofs.Cache.Lifetimes
import RpcFlow.Proofs.Headers.Propagation
import RpcFlow.Proofs.Headers.Silence
import RpcFlow.Proofs.Engine.Supervision
import RpcFlow.Proofs.Engine.Gathering
import RpcFlow.Proofs.Engine.Audience
import RpcFlow.Proofs.Replay.Readers
import RpcFlow.Proofs.Dict.LastEntries
import RpcFlow.Proofs.Strategy.Merging
import RpcFlow.Proofs.Json.Distinct
import RpcFlow.Proofs.Request.Building
import RpcFlow.Proofs.Request.Keys
import RpcFlow.Proofs.Client.Defaults
