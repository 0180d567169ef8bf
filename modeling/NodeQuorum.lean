import NodeQuorum.NetAddress.Parse
import NodeQuorum.Quorum.Block
import NodeQuorum.Quorum.Inventory
import NodeQuorum.Quorum.Process
import NodeQuorum.Quorum.Upkeep
import NodeQuorum.Settings.File
import NodeQuorum.Proofs.Lock.Completion
import NodeQuorum.Proofs.Lock.Conflict
import NodeQuorum.Proofs.Lock.Outcome
import NodeQuorum.Proofs.Lock.Signers
import NodeQuorum.Proofs.Lock.Sweep
import NodeQuorum.Proofs.Payment.OneVote
import NodeQuorum.Proofs.Payment.Template
import NodeQuorum.Proofs.Spork.Binding
import NodeQuorum.Proofs.Registry.Ownership
import NodeQuorum.Proofs.Payment.VoteOrder
import NodeQuorum.Proofs.Registry.Newest
import NodeQuorum.Proofs.Registry.Ranks
import NodeQuorum.Proofs.Lock.Cancelled
import NodeQuorum.Proofs.Payment.Acceptance
import NodeQuorum.Proofs.Payment.Refusal
import NodeQuorum.Proofs.Spork.Convergence
import NodeQuorum.Proofs.Spork.Signing
import NodeQuorum.Proofs.Lock.Height
import NodeQuorum.Proofs.Lock.Known
import NodeQuorum.Proofs.Quorum.Run
import NodeQuorum.Proofs.Registry.Seen
import NodeQuorum.Proofs.Quorum.Served
import NodeQuorum.Proofs.Quorum.Limits
import NodeQuorum.Proofs.Registry.Serving
import NodeQuorum.Proofs.Sync.Stages
import NodeQuorum.Proofs.Quorum.OwnVotes
import NodeQuorum.Proofs.Registry.Life
import NodeQuorum.Proofs.Lock.Erased
import NodeQuorum.Proofs.Payment.Forged
import NodeQuorum.Proofs.Registry.Refused
import NodeQuorum.Proofs.Registry.Turn
import NodeQuorum.Proofs.Payment.Age
import NodeQuorum.Proofs.Payment.Pruning
import NodeQuorum.Proofs.Payment.Filling
import NodeQuorum.Proofs.Lock.Fixed
import NodeQuorum.Proofs.Rollback
import NodeQuorum.Proofs.Lock.TooFast
import NodeQuorum.Proofs.Registry.Mirrored
import NodeQuorum.Proofs.Lock.Overruled
import NodeQuorum.Proofs.Payment.Binding
import NodeQuorum.Proofs.Quorum.Progress
import NodeQuorum.Proofs.Spork.Index
import NodeQuorum.Proofs.Mempool
import NodeQuorum.Proofs.Sync.Reports
import NodeQuorum.Proofs.OutPoint
import NodeQuorum.Proofs.Transaction
import NodeQuorum.Proofs.Lock.Rate
