import Pishoo.Machine
import Pishoo.Result
import Pishoo.Error
import Pishoo.PackageId
import Pishoo.Registry
import Pishoo.Registration
import Pishoo.DependencyGraph
import Pishoo.Json
import Pishoo.Rows
import Pishoo.Digraph
import Pishoo.Outbound
import Pishoo.Delivery
import Pishoo.Dispatch
import Pishoo.ContactSystem
import Pishoo.LeaseFencing
import Pishoo.OutcomeRecord
import Pishoo.DeleteRestore
import Pishoo.Entry
import Pishoo.CommitDiscriminator
import Pishoo.Store
import Pishoo.StoreResolution
import Pishoo.Fault
import Pishoo.Swap
import Pishoo.PackageFiles
import Pishoo.CommitFiles
import Pishoo.CommitOutcome
import Pishoo.Recovery
import Pishoo.CrashAtomicity
import Pishoo.Installation
import Pishoo.InstallationOutcome
import Pishoo.FailureAtomicity
import Pishoo.Acceptance
import Pishoo.LoadedSandbox
import Pishoo.LeftoverJournals
import Pishoo.Publication
import Pishoo.EvidenceBinding
import Pishoo.Releases
import Pishoo.Legacy
import Pishoo.BigEndian
import Pishoo.OutboundRows
import Pishoo.Revocation
import Pishoo.Ownership
import Pishoo.PathText
import Pishoo.Authorization
import Pishoo.Router
import Pishoo.AppAuthorization
import Pishoo.Component
import Pishoo.RouteAgreement
import Pishoo.CapabilityRows
import Pishoo.CapabilitySaving
import Pishoo.CapabilityOffer
import Pishoo.CapabilityDeclarations
import Pishoo.DeclaredGroups
import Pishoo.Capabilities
import Pishoo.ContactAccess
import Pishoo.OfferedGrants
import Pishoo.ContactQuery
import Pishoo.ContactView
import Pishoo.Submission
import Pishoo.RejectedSubmission
import Pishoo.Paging
import Pishoo.ContactList
import Pishoo.ListPages
import Pishoo.ListDetail
import Pishoo.ReviewGate
import Pishoo.Sqlite
import Pishoo.Configuration
import Pishoo.AccessInitialization
import Pishoo.Checked
import Pishoo.Tiling
import Pishoo.Waz
import Pishoo.WazAccounting
import Pishoo.FileTree
import Pishoo.Expanded
import Pishoo.InstalledRoutes
import Pishoo.Frontend
import Pishoo.Framing
import Pishoo.Payload
import Pishoo.ComponentScans
import Pishoo.ProxyRules
import Pishoo.Settings
import Pishoo.LegacyFiles
import Pishoo.LegacyTransfers
import Pishoo.Reconcile
import Pishoo.EventLoop
import Pishoo.ConditionalRemoval
import Pishoo.Mounts
import Pishoo.Forwarding
import Pishoo.GuestCalls
import Pishoo.Callers
import Pishoo.Development
import Pishoo.Mdns
import Pishoo.Advertising
import Pishoo.Upstream
import Pishoo.Relay
import Pishoo.Effects
import Pishoo.Relocation
import Pishoo.Layout
import Pishoo.Volumes
import Pishoo.Worklist
import Pishoo.FileOwners
import Pishoo.DeveloperChain
import Pishoo.GuestBodies
import Pishoo.Identities
import Pishoo.StaticFiles
import Pishoo.Catalog
