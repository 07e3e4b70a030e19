import StakeRegistry.Chain.Block
import StakeRegistry.Stored.Codec

/-!
# The layout of blocks

Transactions, blocks and checkpoints as bytes, field by field.
-/

set_option autoImplicit false

namespace StakeRegistry

open Codec (bytes sizedBytes u8 u16 u32 u64)

/-! ## Keys and forks -/

def HardFork.codec : Codec HardFork := .oneOf HardFork.all

def Address.codec : Codec Address :=
  ((Codec.bytes 32).pair (Codec.bytes 32)).map (fun (spend, view) => ⟨spend, view⟩)
    fun a => (a.spend, a.view)

/-! ## Extra fields -/

def StateChangeKind.codec : Codec StateChangeKind :=
  .oneOf [.deregister, .decommission, .recommission, .ipChangePenalty]

def StateChangeVote.codec : Codec StateChangeVote :=
  (u32.pair (sizedBytes 64)).map (fun (index, signature) => ⟨index, signature⟩)
    fun v => (v.validatorIndex, v.signature)

def StateChange.codec : Codec StateChange :=
  (StateChangeKind.codec.pair <| u64.pair <| u32.pair <| u16.pair <| u16.pair <|
    StateChangeVote.codec.list).map
    (fun (kind, height, index, all, any, votes) => ⟨kind, height, index, all, any, votes⟩)
    fun c => (c.kind, c.height, c.index, c.reasonAll, c.reasonAny, c.votes)

def RegistrationField.codec : Codec RegistrationField :=
  ((bytes 32).list.pair <| (bytes 32).list.pair <| u64.pair <| u64.list.pair <| u64.pair <|
    sizedBytes 64).map
    (fun (spend, view, fee, amounts, forkOrExpiry, signature) =>
      ⟨spend, view, fee, amounts, forkOrExpiry, signature⟩)
    fun r => (r.spendKeys, r.viewKeys, r.fee, r.amounts, r.forkOrExpiry, r.signature)

def KeyImageProof.codec : Codec KeyImageProof :=
  ((bytes 32).pair (sizedBytes 64)).map (fun (image, signature) => ⟨image, signature⟩)
    fun p => (p.keyImage, p.signature)

def KeyImageUnlock.codec : Codec KeyImageUnlock :=
  ((bytes 32).pair <| u32.pair <| sizedBytes 64).map
    (fun (image, nonce, signature) => ⟨image, nonce, signature⟩)
    fun u => (u.keyImage, u.nonce, u.signature)

def BridgeContributor.codec : Codec BridgeContributor :=
  ((bytes 20).pair u64).map (fun (address, amount) => ⟨address, amount⟩)
    fun c => (c.address, c.amount)

def BridgeRegistration.codec : Codec BridgeRegistration :=
  ((sizedBytes 64).pair <| (bytes 20).pair <| (bytes 32).pair <| (sizedBytes 64).pair <|
    u64.pair BridgeContributor.codec.list).map
    (fun (bls, address, key, signature, fee, contributors) =>
      ⟨bls, address, key, signature, fee, contributors⟩)
    fun r => (r.blsKey, r.address, r.nodeKey, r.signature, r.fee, r.contributors)

def BridgeExit.codec : Codec BridgeExit :=
  ((sizedBytes 64).pair <| (bytes 20).pair u64).map
    (fun (bls, address, amount) => ⟨bls, address, amount⟩)
    fun e => (e.blsKey, e.address, e.amount)

/-- The forms of extra fields, in the order of their numbers. -/
def ExtraField.forms : List (Codec.Form ExtraField) :=
  [⟨PublicKey, bytes 32, .txPublicKey, fun | .txPublicKey key => some key | _ => none⟩,
   ⟨PublicKey, bytes 32, .nodeKey, fun | .nodeKey key => some key | _ => none⟩,
   ⟨RegistrationField, RegistrationField.codec, .registration,
     fun | .registration terms => some terms | _ => none⟩,
   ⟨Address, Address.codec, .contributor, fun | .contributor address => some address | _ => none⟩,
   ⟨SecretKey, bytes 32, .txSecretKey, fun | .txSecretKey key => some key | _ => none⟩,
   ⟨List KeyImageProof, KeyImageProof.codec.list, .keyImageProofs,
     fun | .keyImageProofs proofs => some proofs | _ => none⟩,
   ⟨KeyImageUnlock, KeyImageUnlock.codec, .keyImageUnlock,
     fun | .keyImageUnlock request => some request | _ => none⟩,
   ⟨StateChange, StateChange.codec, .stateChange,
     fun | .stateChange change => some change | _ => none⟩,
   ⟨PublicKey, bytes 32, .winner, fun | .winner key => some key | _ => none⟩,
   ⟨BridgeRegistration, BridgeRegistration.codec, .bridgeRegistration,
     fun | .bridgeRegistration terms => some terms | _ => none⟩,
   ⟨BlsKey, sizedBytes 64, .bridgeLeave, fun | .bridgeLeave key => some key | _ => none⟩,
   ⟨BridgeExit, BridgeExit.codec, .bridgeExit, fun | .bridgeExit exit => some exit | _ => none⟩,
   ⟨BlsKey, sizedBytes 64, .bridgeDeregister,
     fun | .bridgeDeregister key => some key | _ => none⟩]

def ExtraField.codec : Codec ExtraField := .tagged ExtraField.forms

/-! ## Transactions and blocks -/

def TxKind.codec : Codec TxKind :=
  .oneOf [.standard, .stateChange, .keyImageUnlock, .stake, .bridgeRegistration, .bridgeLeave,
    .bridgeExit, .bridgeDeregister]

def TxOutput.codec : Codec TxOutput :=
  ((bytes 32).pair <| u64.pair u64).map (fun (key, amount, masked) => ⟨key, amount, masked⟩)
    fun o => (o.key, o.amount, o.maskedAmount)

def Transaction.codec : Codec Transaction :=
  ((bytes 32).pair <| u8.pair <| TxKind.codec.pair <| u64.pair <| u64.list.pair <|
    TxOutput.codec.list.pair ExtraField.codec.list).map
    (fun (hash, version, kind, unlockTime, unlockTimes, outputs, extra) =>
      ⟨hash, version, kind, unlockTime, unlockTimes, outputs, extra⟩)
    fun t => (t.hash, t.version, t.kind, t.unlockTime, t.outputUnlockTimes, t.outputs, t.extra)

def PulseHeader.codec : Codec PulseHeader :=
  (u8.pair <| u16.pair (bytes 16)).map (fun (round, bitset, random) => ⟨round, bitset, random⟩)
    fun h => (h.round, h.bitset, h.random)

def QuorumSignature.codec : Codec QuorumSignature :=
  (u16.pair (sizedBytes 64)).map (fun (index, signature) => ⟨index, signature⟩)
    fun s => (s.voterIndex, s.signature)

def Block.codec : Codec Block :=
  (u64.pair <| (bytes 32).pair <| (bytes 32).pair <| HardFork.codec.pair <| u64.pair <|
    u32.pair <| PulseHeader.codec.pair <| QuorumSignature.codec.list.pair <|
    Transaction.codec.pair (bytes 32).list).map
    (fun (height, hash, prevHash, fork, timestamp, nonce, pulse, signatures, minerTx, txHashes) =>
      ⟨height, hash, prevHash, fork, timestamp, nonce, pulse, signatures, minerTx, txHashes⟩)
    fun b => (b.height, b.hash, b.prevHash, b.fork, b.timestamp, b.nonce, b.pulse, b.signatures,
      b.minerTx, b.txHashes)

def Checkpoint.codec : Codec Checkpoint :=
  (u64.pair <| (bytes 32).pair QuorumSignature.codec.list).map
    (fun (height, hash, signatures) => ⟨height, hash, signatures⟩)
    fun c => (c.height, c.blockHash, c.signatures)

end StakeRegistry
