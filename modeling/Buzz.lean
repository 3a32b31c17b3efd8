import Buzz.Audit.Tamper
import Buzz.Db.Channel.Owners
import Buzz.Db.Channel.Roles
import Buzz.Db.Push.GateSoundness
import Buzz.Db.Push.LeaseHistory
import Buzz.Db.Relay.InviteBudget
import Buzz.Db.Replaceable
import Buzz.Db.ReplicaFenceSoundness
import Buzz.Mesh.Versions
import Buzz.PushGateway.Fences
import Buzz.PushGateway.StoreRefinement
import Buzz.ReadState.Quiescence
import Buzz.Relay.Admission
import Buzz.Relay.Git.Closure
import Buzz.Relay.Push.Delivery
import Buzz.Relay.SubscriptionFanOut
import Buzz.Relay.Tunnel.ReliableDelivery
import Buzz.Terminal.Accounting
import Buzz.Workflow.Spacing
import Buzz.Acp.QueueRetries
import Buzz.Agent.Run
import Buzz.Relay.IdentityArchive.Lawful
import Buzz.Db.Dm.OneChannel
import Buzz.Acp.QueueDraining
import Buzz.EvmAuth.Rotation
import Buzz.Relay.Git.Protection
import Buzz.Core.Engram.Refs
import Buzz.Core.Engram.Head
import Buzz.Core.Engram.Body
import Buzz.Relay.Git.ManifestCodec
import Buzz.Relay.Git.Snapshot
import Buzz.Core.Pairing.Atomicity
import Buzz.Core.Pairing.Qr
import Buzz.PairRelay.Content
import Buzz.PairRelay.Subscriptions
import Buzz.Terminal.BackwardTabs
import Buzz.Workflow.Condition
import Buzz.Workflow.Windows
import Buzz.Relay.Audio.Admission
import Buzz.Relay.Audio.Roster
import Buzz.Db.Thread.Window
import Buzz.Db.Thread.Replies
import Buzz.DevMcp.StrReplace
import Buzz.Terminal.Damage
import Buzz.Db.Push.Enqueue
import Buzz.ReadState.Budget
import Buzz.ReadState.Slots
import Buzz.Relay.ReactionIngest
import Buzz.Relay.Pushdown
import Buzz.Relay.Project
import Buzz.Agent.Handoff
import Buzz.Acp.Usage
import Buzz.GitSign.SigningHash
import Buzz.GitSign.Agreement
import Buzz.Relay.Push.Settlement
import Buzz.EvmAuth.Rpc
import Buzz.EvmAuth.SiweLayout
import Buzz.Relay.Evm.AllOrNothing
import Buzz.Agent.Truncation
import Buzz.Core.Network
import Buzz.Sdk.Mentions
import Buzz.Relay.Nip98Binding
import Buzz.Desktop.PullRequestTrust
import Buzz.Kubernetes.OneAttempt
