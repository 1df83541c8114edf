import OpaqueStellar.Asp.Chain
import OpaqueStellar.Asp.Engine
import OpaqueStellar.Asp.Freshness
import OpaqueStellar.Asp.Merkle
import OpaqueStellar.Asp.Reinstate
import OpaqueStellar.Asp.Reorg
import OpaqueStellar.Asp.Screening
import OpaqueStellar.Asp.StateTree
import OpaqueStellar.Asp.Stellar
import OpaqueStellar.Attestations.Effect
import OpaqueStellar.Attestations.Engine
import OpaqueStellar.Attestations.Lawful
import OpaqueStellar.Circuit.Gadgets
import OpaqueStellar.Circuit.PoolWithdraw
import OpaqueStellar.Circuit.StealthReputation
import OpaqueStellar.Groth16.Verifier
import OpaqueStellar.Lib.Async
import OpaqueStellar.Lib.Bytes
import OpaqueStellar.Lib.Codec
import OpaqueStellar.Lib.Dict
import OpaqueStellar.Lib.History
import OpaqueStellar.Lib.Lineage
import OpaqueStellar.Lib.Lists
import OpaqueStellar.Lib.Machine
import OpaqueStellar.Lib.Merkle
import OpaqueStellar.Lib.Primality
import OpaqueStellar.Lib.Store
import OpaqueStellar.Multisig.Contract
import OpaqueStellar.Multisig.Effect
import OpaqueStellar.Multisig.Invariant
import OpaqueStellar.Multisig.Pending
import OpaqueStellar.Multisig.Threshold
import OpaqueStellar.Pool.Admin
import OpaqueStellar.Pool.Capacity
import OpaqueStellar.Pool.Contract
import OpaqueStellar.Pool.Custody
import OpaqueStellar.Pool.Effect
import OpaqueStellar.Pool.Leaves
import OpaqueStellar.Pool.Notes
import OpaqueStellar.Pool.Nullifier
import OpaqueStellar.Pool.Pause
import OpaqueStellar.Pool.Provenance
import OpaqueStellar.Pool.Roots
import OpaqueStellar.Pool.State
import OpaqueStellar.Pool.ValueSoundness
import OpaqueStellar.Prover.Association
import OpaqueStellar.Prover.Change
import OpaqueStellar.Prover.Pool
import OpaqueStellar.Publisher.Dedup
import OpaqueStellar.Publisher.Engine
import OpaqueStellar.Publisher.Inbox
import OpaqueStellar.Publisher.Service
import OpaqueStellar.Registry.Bonds
import OpaqueStellar.Registry.Contract
import OpaqueStellar.Registry.Effect
import OpaqueStellar.Registry.Jobs
import OpaqueStellar.Registry.Solvency
import OpaqueStellar.Registry.State
import OpaqueStellar.Relayer.Bytes
import OpaqueStellar.Relayer.Chain
import OpaqueStellar.Relayer.Durability
import OpaqueStellar.Relayer.Engine
import OpaqueStellar.Relayer.Hub
import OpaqueStellar.Relayer.Messages
import OpaqueStellar.Relayer.Restart
import OpaqueStellar.Relayer.Rules
import OpaqueStellar.Relayer.Settlement
import OpaqueStellar.Relayer.Tasks
import OpaqueStellar.Reputation.Binding
import OpaqueStellar.Reputation.Freshness
import OpaqueStellar.Reputation.Pruning
import OpaqueStellar.Reputation.Soundness
import OpaqueStellar.Reputation.System
import OpaqueStellar.Schemas.Core
import OpaqueStellar.Schemas.Invariant
import OpaqueStellar.Schemas.Ownership
import OpaqueStellar.Schemas.Registry
import OpaqueStellar.Soroban.Basic
import OpaqueStellar.Soroban.Token
import OpaqueStellar.Stealth.Agreement
import OpaqueStellar.Stealth.Curve
import OpaqueStellar.Stealth.Dksap
import OpaqueStellar.Stealth.Scan
import OpaqueStellar.Wallet.Backup
import OpaqueStellar.Wallet.Deposit
import OpaqueStellar.Wallet.Store
import OpaqueStellar.Web.Notes
import OpaqueStellar.Web.Storage
import OpaqueStellar.Stealth.Events
import OpaqueStellar.Stealth.Resume
import OpaqueStellar.Lib.Text
import OpaqueStellar.Schemas.Codec
import OpaqueStellar.Schemas.Definitions
import OpaqueStellar.Schemas.Encoding
import OpaqueStellar.Lib.Fields
import OpaqueStellar.Schemas.Mirror
import OpaqueStellar.Lib.Utf8
import OpaqueStellar.Schemas.Utf8
import OpaqueStellar.Schemas.Canonical
import OpaqueStellar.Schemas.Identity
import OpaqueStellar.Schemas.Decoding
import OpaqueStellar.Scanner.Merkle
import OpaqueStellar.Scanner.Trees
import OpaqueStellar.Soroban.Xdr
import OpaqueStellar.Relayer.Payload
import OpaqueStellar.Prover.Context
import OpaqueStellar.Prover.Witness
import OpaqueStellar.Registry.Slashes
import OpaqueStellar.Schemas.Grammar
import OpaqueStellar.Publisher.Validate
import OpaqueStellar.Publisher.Reconcile
import OpaqueStellar.Asp.Reconcile
import OpaqueStellar.Asp.Inclusion
import OpaqueStellar.Asp.Signature
import OpaqueStellar.Publisher.Dataset
import OpaqueStellar.Lib.Utf16
import OpaqueStellar.Relayer.BidDigest
import OpaqueStellar.Relayer.JobIds
import OpaqueStellar.Relayer.Failover
import OpaqueStellar.Lib.Weighted
import OpaqueStellar.Relayer.Gateway
import OpaqueStellar.Relayer.Reconciler
import OpaqueStellar.Payments.Amount
import OpaqueStellar.Payments.Memo
import OpaqueStellar.Lib.Binary64
import OpaqueStellar.Lib.FormUrlencoded
import OpaqueStellar.Payments.Link
import OpaqueStellar.Stealth.Pagination
import OpaqueStellar.Pool.Coverage
import OpaqueStellar.Prover.Reconstruction
import OpaqueStellar.Wallet.Withdrawal
import OpaqueStellar.Web.Cache
import OpaqueStellar.Web.ScanCoverage
import OpaqueStellar.Lib.Words
import OpaqueStellar.Reputation.ExternalNullifier
import OpaqueStellar.Stealth.Registry
import OpaqueStellar.Stealth.RegistryHistory
import OpaqueStellar.Lib.TokenBucket
import OpaqueStellar.Publisher.RateLimit
import OpaqueStellar.Prover.AspClient
import OpaqueStellar.Circuit.Signals
import OpaqueStellar.Scanner.Witness
import OpaqueStellar.Publisher.Tree
import OpaqueStellar.Prover.ReputationWitness
import OpaqueStellar.Lib.Limbs
import OpaqueStellar.Lib.Montgomery
import OpaqueStellar.Lib.Hades
import OpaqueStellar.Poseidon.Field
import OpaqueStellar.Poseidon.Constants
import OpaqueStellar.Poseidon.Permutation
import OpaqueStellar.Lib.Paging
import OpaqueStellar.Web.ChainSync
import OpaqueStellar.Web.Delegates
import OpaqueStellar.Web.EventScans
import OpaqueStellar.Lib.JsonText
import OpaqueStellar.Relayer.PayloadCodec
import OpaqueStellar.Groth16.FieldHelpers
import OpaqueStellar.Prover.WorkerPool
import OpaqueStellar.Web.ChunkDelivery
import OpaqueStellar.Web.GapList
import OpaqueStellar.Web.ReadFallback
import OpaqueStellar.Wallet.NoteBackup
import OpaqueStellar.Stealth.Attestations
import OpaqueStellar.Registry.Directory
import OpaqueStellar.Pool.Alerts
import OpaqueStellar.Pool.Backing
import OpaqueStellar.Registry.Unbonding
import OpaqueStellar.Lib.Framing
import OpaqueStellar.Relayer.GossipStream
import OpaqueStellar.Web.TxHistory
import OpaqueStellar.Relayer.HttpFront
import OpaqueStellar.Web.PendingAttestations
