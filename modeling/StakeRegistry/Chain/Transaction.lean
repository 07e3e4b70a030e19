import StakeRegistry.Chain.Keys
import StakeRegistry.Chain.HardFork

/-!
# Transactions

Transactions as the registry sees them: outputs, unlock times and typed extra fields. Of
several extra fields of one kind the first counts.
-/

set_option autoImplicit false

namespace StakeRegistry

/-- What a transaction does. -/
inductive TxKind where
  | standard
  | stateChange
  | keyImageUnlock
  | stake
  | bridgeRegistration
  | bridgeLeave
  | bridgeExit
  | bridgeDeregister
  deriving DecidableEq, Inhabited

/-- The kind of transaction that carries registrations and contributions. Before stakes had a
kind of their own they travelled as standard transactions. -/
def TxKind.ofStakes (fork : HardFork) : TxKind :=
  if HardFork.blink ≤ fork then .stake else .standard

/-- An output: its one-time key, its clear amount (zero when hidden) and its hidden amount. -/
structure TxOutput where
  key : PublicKey
  amount : Nat
  maskedAmount : Nat
  deriving DecidableEq, Inhabited

/-- The change that a quorum votes on a node. -/
inductive StateChangeKind where
  | deregister
  | decommission
  | recommission
  | ipChangePenalty
  deriving DecidableEq, Inhabited

/-- The number that stands for a change in signed votes. -/
def StateChangeKind.number : StateChangeKind → Nat
  | .deregister => 0
  | .decommission => 1
  | .recommission => 2
  | .ipChangePenalty => 3

/-- The terms of a registration: the reserved addresses, the operator's first, as parallel
lists of keys and amounts; the operator's fee; and either a fork number or, for amounts given
as portions, the time at which the registration expires. -/
structure RegistrationField where
  spendKeys : List PublicKey
  viewKeys : List PublicKey
  fee : Nat
  amounts : List Nat
  forkOrExpiry : Nat
  signature : Signature
  deriving DecidableEq, Inhabited

/-- A proof that the staker can make the key image of a staked output. -/
structure KeyImageProof where
  keyImage : KeyImage
  signature : Signature
  deriving DecidableEq, Inhabited

/-- A request to unlock a locked stake. -/
structure KeyImageUnlock where
  keyImage : KeyImage
  nonce : Nat
  signature : Signature
  deriving DecidableEq, Inhabited

/-- The vote of one validator of a quorum on a state change. -/
structure StateChangeVote where
  validatorIndex : Nat
  signature : Signature
  deriving DecidableEq, Inhabited

/-- A state change voted on by the obligations quorum of `height`, for the node at `index` in
that quorum's list of workers. -/
structure StateChange where
  kind : StateChangeKind
  height : Nat
  index : Nat
  reasonAll : Nat
  reasonAny : Nat
  votes : List StateChangeVote
  deriving DecidableEq, Inhabited

/-- A contributor to a registration through the bridge. -/
structure BridgeContributor where
  address : EthAddress
  amount : Nat
  deriving DecidableEq, Inhabited

/-- A registration that arrives through the bridge. -/
structure BridgeRegistration where
  blsKey : BlsKey
  address : EthAddress
  nodeKey : PublicKey
  signature : Signature
  fee : Nat
  contributors : List BridgeContributor
  deriving DecidableEq, Inhabited

/-- An exit that arrives through the bridge, with the amount that the contract releases. -/
structure BridgeExit where
  blsKey : BlsKey
  address : EthAddress
  amount : Nat
  deriving DecidableEq, Inhabited

/-- A field of a transaction's extra data. -/
inductive ExtraField where
  | txPublicKey (key : PublicKey)
  | nodeKey (key : PublicKey)
  | registration (terms : RegistrationField)
  | contributor (address : Address)
  | txSecretKey (key : SecretKey)
  | keyImageProofs (proofs : List KeyImageProof)
  | keyImageUnlock (request : KeyImageUnlock)
  | stateChange (change : StateChange)
  | winner (key : PublicKey)
  | bridgeRegistration (registration : BridgeRegistration)
  | bridgeLeave (blsKey : BlsKey)
  | bridgeExit (exit : BridgeExit)
  | bridgeDeregister (blsKey : BlsKey)
  deriving DecidableEq

/-- A transaction. -/
structure Transaction where
  hash : Hash
  version : Nat
  kind : TxKind
  unlockTime : Nat
  outputUnlockTimes : List Nat
  outputs : List TxOutput
  extra : List ExtraField
  deriving DecidableEq, Inhabited

namespace Transaction

/-- The first transaction version with an unlock time for every output. -/
def perOutputUnlockVersion : Nat := 3

/-- The height at which an output unlocks: its own in versions that have one (zero where the
list is too short), else the transaction's. -/
def outputUnlockTime (tx : Transaction) (index : Nat) : Nat :=
  if perOutputUnlockVersion ≤ tx.version then (tx.outputUnlockTimes[index]?).getD 0
  else tx.unlockTime

def txPublicKey? (tx : Transaction) : Option PublicKey :=
  tx.extra.findSome? fun
    | .txPublicKey key => some key
    | _ => none

def nodeKey? (tx : Transaction) : Option PublicKey :=
  tx.extra.findSome? fun
    | .nodeKey key => some key
    | _ => none

def registration? (tx : Transaction) : Option RegistrationField :=
  tx.extra.findSome? fun
    | .registration terms => some terms
    | _ => none

def contributor? (tx : Transaction) : Option Address :=
  tx.extra.findSome? fun
    | .contributor address => some address
    | _ => none

def txSecretKey? (tx : Transaction) : Option SecretKey :=
  tx.extra.findSome? fun
    | .txSecretKey key => some key
    | _ => none

def keyImageProofs? (tx : Transaction) : Option (List KeyImageProof) :=
  tx.extra.findSome? fun
    | .keyImageProofs proofs => some proofs
    | _ => none

def keyImageUnlock? (tx : Transaction) : Option KeyImageUnlock :=
  tx.extra.findSome? fun
    | .keyImageUnlock request => some request
    | _ => none

def stateChange? (tx : Transaction) : Option StateChange :=
  tx.extra.findSome? fun
    | .stateChange change => some change
    | _ => none

/-- The reward winner that a miner transaction declares. -/
def winner? (tx : Transaction) : Option PublicKey :=
  tx.extra.findSome? fun
    | .winner key => some key
    | _ => none

def bridgeRegistration? (tx : Transaction) : Option BridgeRegistration :=
  tx.extra.findSome? fun
    | .bridgeRegistration registration => some registration
    | _ => none

def bridgeLeave? (tx : Transaction) : Option BlsKey :=
  tx.extra.findSome? fun
    | .bridgeLeave blsKey => some blsKey
    | _ => none

def bridgeExit? (tx : Transaction) : Option BridgeExit :=
  tx.extra.findSome? fun
    | .bridgeExit exit => some exit
    | _ => none

def bridgeDeregister? (tx : Transaction) : Option BlsKey :=
  tx.extra.findSome? fun
    | .bridgeDeregister blsKey => some blsKey
    | _ => none

end Transaction

end StakeRegistry
