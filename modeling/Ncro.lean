import Ncro.Foundation.Process
import Ncro.Foundation.Double
import Ncro.Foundation.Table
import Ncro.Foundation.Grouping
import Ncro.NarUrl
import Ncro.Filter
import Ncro.Db
import Ncro.Health
import Ncro.TtlCache
import Ncro.Router.Registry
import Ncro.Router.Operations
import Ncro.Router.Resolve
import Ncro.Router.Race
import Ncro.Router.Footprint
import Ncro.Instance
import Ncro.Mesh
import Ncro.Router.Gate
import Ncro.System
import Ncro.Router.FilterGate
import Ncro.Router.SignatureGate
import Ncro.Server.Narinfo
import Ncro.Server.Miss
import Ncro.Router.Phases
import Ncro.Router.SingleFlight
import Ncro.Server.Nar
import Ncro.Server.Hedging
import Ncro.Foundation.Ranking
import Ncro.Network.Forwarding
import Ncro.Network.NarForwarding
import Ncro.Startup
import Ncro.Foundation.Selection
import Ncro.Mesh.Convergence
import Ncro.Router.CachedHealth
import Ncro.Server.Failover
import Ncro.Foundation.Trace
import Ncro.History
import Ncro.Router.Writes
import Ncro.Router.Replays
import Ncro.Router.RowConsistency
import Ncro.Router.RouteTtl
import Ncro.Router.LostUpdates
import Ncro.Router.Negatives
import Ncro.Mesh.Announce
import Ncro.Foundation.Machine
import Ncro.Health.Persistence
import Ncro.Config.Load
import Ncro.Foundation.Checks
import Ncro.Network.Lookups
import Ncro.Network.Deadlock
import Ncro.Health.Reprobing
import Ncro.Health.Detection
import Ncro.Health.SortOrder
import Ncro.Discovery
import Ncro.Discovery.Loop
import Ncro.Router.RouteBound
import Ncro.Router.RootedPaths
import Ncro.Router.MintedUrls
import Ncro.Server.NarFilters
import Ncro.Foundation.Json
import Ncro.Realisation
import Ncro.Server.Realisation
import Ncro.Server.VerifiedAnswers
import Ncro.Mesh.Listener
import Ncro.Foundation.RelyGuarantee
import Ncro.Foundation.Relational
import Ncro.Migration
import Ncro.Foundation.FileSystem
import Ncro.Mesh.Identity
import Ncro.Foundation.Glob
import Ncro.FilterPatterns
import Ncro.RewrittenNarinfo
import Ncro.NarinfoFormat
import Ncro.CanonicalUrls
import Ncro.Router.PublishedUrls
import Ncro.Foundation.Digits
import Ncro.NarHash
import Ncro.SignedMetadata
import Ncro.Foundation.PercentEncoding
import Ncro.ObjectUrls
import Ncro.Mesh.ExpiredRows
import Ncro.Foundation.Deadline
import Ncro.Router.RaceTimeouts
import Ncro.Config.KeyValidation
import Ncro.Health.Records
import Ncro.Health.Summary
import Ncro.Expiry
import Ncro.Health.Flush
import Ncro.Router.Commits
import Ncro.Router.FailedRaces
import Ncro.Foundation.Recency
import Ncro.CacheHistory
import Ncro.Router.InflightMap
import Ncro.RouteStore
import Ncro.Network.Gossip
import Ncro.Network.SignedGossip
import Ncro.Network.Published
import Ncro.Network.Permits
import Ncro.Router.LookupTime
import Ncro.Router.Cooldown
import Ncro.Router.Sources
import Ncro.Server.NarOrigin
import Ncro.Server.NarTime
import Ncro.Upstream.CredentialScope
import Ncro.Upstream.Credentials
