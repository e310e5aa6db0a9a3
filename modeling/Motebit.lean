import Motebit.Accounts.Runs
import Motebit.Batch.Safety
import Motebit.Payout.Safety
import Motebit.Deposit.Progress
import Motebit.X402.Queue
import Motebit.Idempotency.Safety
import Motebit.TaskQueue.AnswerSafety
import Motebit.TaskQueue.ClaimSafety
import Motebit.Disputes.Federation
import Motebit.Federation.Delivery
import Motebit.Federation.Upstream
import Motebit.Peers.Peering
import Motebit.Peers.Budget
import Motebit.Escrow.Grants
import Motebit.Policy.RollingWindow
import Motebit.Audit.Sink
import Motebit.Planner.Agreement
import Motebit.Roster.Resolved
import Motebit.Routing.Replay
import Motebit.P2p.Verifier
import Motebit.Sovereign.Interlock
import Motebit.Wallet.Landing
import Motebit.Encoding.Base58
import Motebit.Sync.Appends
import Motebit.Sync.SeqCursor
import Motebit.Sync.LostUpdates
import Motebit.Disputes.SignedResolution
import Motebit.Market.FeeLanes
import Motebit.Policy.PathList
import Motebit.Policy.TurnBudgets
import Motebit.Market.Eligible
import Motebit.Market.DelegationTrust
import Motebit.Market.Invoice
import Motebit.Memory.Queries
import Motebit.Git.Readers
import Motebit.PathPolicy.Members
import Motebit.Git.Signatures
import Motebit.Attestation.Der
import Motebit.Skills.Registry
import Motebit.Horizon.Omission
import Motebit.CircuitBreaker.History
import Motebit.EventLog.Clocks
import Motebit.Merkle.Malformed
import Motebit.Signing.Grant
import Motebit.Sync.Merge
import Motebit.Traversal.Derivations
