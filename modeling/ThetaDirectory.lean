import ThetaDirectory.Groups.Isolation
import ThetaDirectory.Groups.NestedPermission
import ThetaDirectory.Groups.NestingRoutes
import ThetaDirectory.Groups.FilterRewrite
import ThetaDirectory.Access.Projection
import ThetaDirectory.Access.AgentIam
import ThetaDirectory.Access.UserAccess
import ThetaDirectory.Seeding.Safety
import ThetaDirectory.Discovery.Acyclicity
import ThetaDirectory.Discovery.Retention
import ThetaDirectory.Discovery.EdgeOwnership
import ThetaDirectory.Discovery.Collisions
import ThetaDirectory.Discovery.SiteSeparation
import ThetaDirectory.Replication.Interruption
import ThetaDirectory.Replication.Integrity
import ThetaDirectory.Discovery.Repetition
import ThetaDirectory.Groups.Caching
import ThetaDirectory.Locks.Contract
import ThetaDirectory.Spokes.Distinct
import ThetaDirectory.Replication.Credentials
import ThetaDirectory.Agents.JoinKeyLimit
import ThetaDirectory.Access.Settlement
import ThetaDirectory.Vault.Revocation
import ThetaDirectory.Accounts.SingleUse
import ThetaDirectory.Vault.OneCredential
import ThetaDirectory.Mesh.AddressPlan
import ThetaDirectory.Mesh.OneHub
import ThetaDirectory.Mesh.Exits
import ThetaDirectory.Mesh.Agreement
import ThetaDirectory.Replication.Triggers
import ThetaDirectory.Agents.Signing
import ThetaDirectory.Discovery.Provenance
import ThetaDirectory.Agents.TunnelLimit
import ThetaDirectory.Accounts.Rollback
import ThetaDirectory.Migration.RoundTrip
import ThetaDirectory.Migration.Clashes
import ThetaDirectory.Groups.Duality
import ThetaDirectory.Groups.Separation
import ThetaDirectory.Access.InheritanceSources
import ThetaDirectory.Access.CatalogueOrder
import ThetaDirectory.Access.SiteOfHost
import ThetaDirectory.Discovery.Identity
import ThetaDirectory.Discovery.Rediscovery
import ThetaDirectory.Discovery.Controllers
import ThetaDirectory.SlapdConfig.Convergence
import ThetaDirectory.Agents.Speakers
import ThetaDirectory.Bubbling.Summaries
import ThetaDirectory.Bubbling.Tags
import ThetaDirectory.Bubbling.Evaluation
import ThetaDirectory.Climbing.Address
import ThetaDirectory.Climbing.CatalogStatus
import ThetaDirectory.Library.Postfix
import ThetaDirectory.StatusRules.Grammar
import ThetaDirectory.Accounts.NextIds
import ThetaDirectory.SlapdConfig.Drift
import ThetaDirectory.Spokes.Repair
import ThetaDirectory.Spokes.PeerList
import ThetaDirectory.Spokes.Readoption
import ThetaDirectory.Groups.Binding
import ThetaDirectory.Migration.Redaction
import ThetaDirectory.Migration.Stripping
import ThetaDirectory.Migration.Operational
import ThetaDirectory.Discovery.Telemetry
import ThetaDirectory.Accounts.Stored
import ThetaDirectory.Migration.Apply
import ThetaDirectory.Migration.Steady
import ThetaDirectory.Migration.Rows
import ThetaDirectory.Migration.PersonalGroups
import ThetaDirectory.Discovery.SitesAbove
import ThetaDirectory.Agents.SiteHints
import ThetaDirectory.Groups.DirectMembers
import ThetaDirectory.Groups.ValidGroups
import ThetaDirectory.Migration.Writes
import ThetaDirectory.Migration.Alongside
import ThetaDirectory.Migration.Resuming
import ThetaDirectory.OAuth.Revocation
import ThetaDirectory.Forwarding.Acceptance
import ThetaDirectory.Forwarding.Redirects
import ThetaDirectory.Live.Feed
import ThetaDirectory.Live.Freshness
import ThetaDirectory.Plugins.Secrecy
