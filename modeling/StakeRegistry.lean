import StakeRegistry.Data.Bytes
import StakeRegistry.Data.SortedMap
import StakeRegistry.Data.Word
import StakeRegistry.Random.Twister
import StakeRegistry.Random.Uniform
import StakeRegistry.Crypto.Keccak
import StakeRegistry.Crypto.Blake3
import StakeRegistry.Crypto.Sha512
import StakeRegistry.Crypto.Edwards
import StakeRegistry.Crypto.Ed25519
import StakeRegistry.Chain.HardFork
import StakeRegistry.Chain.Keys
import StakeRegistry.Chain.Transaction
import StakeRegistry.Chain.Block
import StakeRegistry.Crypto.Suite
import StakeRegistry.Data.Ring
import StakeRegistry.Network.Rules
import StakeRegistry.Network.Schedule
import StakeRegistry.Network.Settings
import StakeRegistry.Chain.Timing
import StakeRegistry.Staking.Limits
import StakeRegistry.Quorum.Basic
import StakeRegistry.Swarm
import StakeRegistry.Data.Hex
import StakeRegistry.Node.Info
import StakeRegistry.Node.Credit
import StakeRegistry.Registry.Basic
import StakeRegistry.Error
import StakeRegistry.Quorum.Selection
import StakeRegistry.Quorum.Pulse
import StakeRegistry.History.Basic
import StakeRegistry.History.View
import StakeRegistry.Verification.Votes
import StakeRegistry.Verification.Block
import StakeRegistry.Staking.Registration
import StakeRegistry.Staking.Stake
import StakeRegistry.Staking.NewNode
import StakeRegistry.Context
import StakeRegistry.Transition.Outcome
import StakeRegistry.Transition.Registering
import StakeRegistry.Transition.Contributing
import StakeRegistry.Transition.Penalties
import StakeRegistry.Transition.Unlocking
import StakeRegistry.Transition.Bridging
import StakeRegistry.Transition.Expiry
import StakeRegistry.Transition.Apply
import StakeRegistry.Document.Basic
import StakeRegistry.Document.Chain
import StakeRegistry.Document.Registry
import StakeRegistry.Document.Errors
import StakeRegistry.Document.Settings
import StakeRegistry.Rewards.Shares
import StakeRegistry.Rewards.MinerTx
import StakeRegistry.Document.Rewards
import StakeRegistry.Uptime.Ip
import StakeRegistry.Uptime.Proof
import StakeRegistry.Uptime.Check
import StakeRegistry.Uptime.Record
import StakeRegistry.Uptime.Transport
import StakeRegistry.Document.Uptime
import StakeRegistry.Stored.Codec
import StakeRegistry.Stored.Chain
import StakeRegistry.Stored.Records
import StakeRegistry.Stored.Registry
import StakeRegistry.Stored.Upgrade
import StakeRegistry.Stored.Snapshot
import StakeRegistry.Document.Stored
import StakeRegistry.Stored.Store
import StakeRegistry.Live.Basic
import StakeRegistry.Live.Storage
import StakeRegistry.Live.Effects
import StakeRegistry.Live.Blocks
import StakeRegistry.Live.Uptime
import StakeRegistry.Live.Query
import StakeRegistry.Document.Live
import StakeRegistry.Proofs.Live.Branching
import StakeRegistry.Proofs.Live.Restarting
import StakeRegistry.Proofs.Transition.Turns
import StakeRegistry.Proofs.Transition.Activity
import StakeRegistry.Proofs.Staking.Slots
import StakeRegistry.Proofs.Transition.Locked
import StakeRegistry.Proofs.Staking.Room
import StakeRegistry.Proofs.Transition.Reservations
import StakeRegistry.Proofs.Live.Reorganising
import StakeRegistry.Proofs.Verification.Production
import StakeRegistry.Proofs.Transition.Totality
import StakeRegistry.Proofs.Rewards.Producer
import StakeRegistry.Proofs.Transition.Rotation
import StakeRegistry.Proofs.Transition.Funding
import StakeRegistry.Proofs.Rewards.Payees
import StakeRegistry.Proofs.Transition.Moves
import StakeRegistry.Proofs.Transition.Queue
import StakeRegistry.Proofs.Transition.Terms
import StakeRegistry.Proofs.Transition.BlsKeys
import StakeRegistry.Proofs.Transition.Unlocks
import StakeRegistry.Proofs.Swarm.Balancing
import StakeRegistry.Proofs.Transition.Swarms
import StakeRegistry.Proofs.History.Ageing
import StakeRegistry.Proofs.Live.Ageing
import StakeRegistry.Proofs.Stored.Layouts
import StakeRegistry.Proofs.Stored.Reopening
import StakeRegistry.Proofs.Stored.Upgrading
import StakeRegistry.Proofs.Live.Roaming
import StakeRegistry.Proofs.Live.Storing
import StakeRegistry.Proofs.Live.Syncing
import StakeRegistry.Proofs.Live.Rescanning
import StakeRegistry.Proofs.Staking.Shortfall
import StakeRegistry.Proofs.Transition.Identity
import StakeRegistry.Proofs.Transition.Reregistering
import StakeRegistry.Proofs.Transition.Returns
import StakeRegistry.Proofs.Live.Paying
import StakeRegistry.Proofs.Live.Checkpointing
import StakeRegistry.Proofs.Live.Expiring
import StakeRegistry.Proofs.Live.Unordered
import StakeRegistry.Proofs.Live.Records
import StakeRegistry.Proofs.Live.Proving
import StakeRegistry.Proofs.Rewards.Splitting
import StakeRegistry.Proofs.Swarm.Surplus
import StakeRegistry.Proofs.Swarm.Settling
import StakeRegistry.Proofs.Transition.Resting
import StakeRegistry.Proofs.Transition.Enrolling
import StakeRegistry.Proofs.Staking.Curves
import StakeRegistry.Proofs.Staking.Decoding
import StakeRegistry.Proofs.Quorum.Redrawing
import StakeRegistry.Proofs.Quorum.Entropy
import StakeRegistry.Proofs.Random.Fairness
import StakeRegistry.Proofs.Rewards.Batches
import StakeRegistry.Proofs.Transition.Forfeits
import StakeRegistry.Proofs.Transition.LockPeriods
import StakeRegistry.Proofs.Staking.Signing
import StakeRegistry.Proofs.Live.Limiting
import StakeRegistry.Proofs.Uptime.Addresses
import StakeRegistry.Proofs.Uptime.Reports
import StakeRegistry.Proofs.Uptime.Generating
