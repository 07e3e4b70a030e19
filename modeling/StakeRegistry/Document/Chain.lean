import StakeRegistry.Chain.Block
import StakeRegistry.Document.Basic

/-!
# Transactions and blocks as documents
-/

set_option autoImplicit false

namespace StakeRegistry

/-! ## Forks and addresses -/

instance : OfDocument HardFork where
  ofDocument
    | .null => .ok .v7
    | d => do
        match HardFork.ofNumber? (← ofDocument d) with
        | some fork => .ok fork
        | none => .error "hard fork expected"

instance : ToDocument HardFork := ⟨fun fork => toDocument fork.number⟩

instance : OfDocument Address where
  ofDocument d := do
    let b : Bytes 64 ← ofDocument d
    return ⟨Bytes.ofListPad 32 (b.toList.take 32), Bytes.ofListPad 32 (b.toList.drop 32)⟩

instance : ToDocument Address := ⟨fun a => toDocument a.bytes⟩

/-! ## Transactions -/

def txKindNames : List (TxKind × String) :=
  [(.standard, "Standard"), (.stateChange, "StateChange"), (.keyImageUnlock, "KeyImageUnlock"),
   (.stake, "Stake"), (.bridgeRegistration, "EthNewServiceNode"),
   (.bridgeLeave, "EthLeaveRequest"), (.bridgeExit, "EthExit"),
   (.bridgeDeregister, "EthDeregister")]

instance : OfDocument TxKind where
  ofDocument
    | .null => .ok .standard
    | d => ofNames txKindNames d

instance : ToDocument TxKind := ⟨fun k => .text (nameIn txKindNames k)⟩

def stateChangeNames : List (StateChangeKind × String) :=
  [(.deregister, "Deregister"), (.decommission, "Decommission"),
   (.recommission, "Recommission"), (.ipChangePenalty, "IpChangePenalty")]

instance : OfDocument StateChangeKind := ⟨ofNames stateChangeNames⟩

instance : ToDocument StateChangeKind := ⟨fun k => .text (nameIn stateChangeNames k)⟩

instance : OfDocument TxOutput where
  ofDocument d := return ⟨← d.get "key", ← d.get "amount", ← d.get "masked"⟩

instance : ToDocument TxOutput where
  toDocument o :=
    .record [entry "key" o.key, entry "amount" o.amount, entry "masked" o.maskedAmount]

instance : OfDocument KeyImageProof := ⟨fun d => return ⟨← d.nth 0, ← d.nth 1⟩⟩

instance : ToDocument KeyImageProof := ⟨fun p => toDocument (p.keyImage, p.signature)⟩

instance : OfDocument StateChangeVote := ⟨fun d => return ⟨← d.nth 0, ← d.nth 1⟩⟩

instance : ToDocument StateChangeVote := ⟨fun v => toDocument (v.validatorIndex, v.signature)⟩

instance : OfDocument BridgeContributor := ⟨fun d => return ⟨← d.nth 0, ← d.nth 1⟩⟩

instance : ToDocument BridgeContributor := ⟨fun c => toDocument (c.address, c.amount)⟩

instance : OfDocument StateChange where
  ofDocument d := return {
    kind := ← d.get "state"
    height := ← d.get "height"
    index := ← d.get "index"
    reasonAll := ← d.get "reason_all"
    reasonAny := ← d.get "reason_any"
    votes := ← d.get "votes" }

instance : OfDocument RegistrationField where
  ofDocument d := return {
    spendKeys := ← d.get "spend"
    viewKeys := ← d.get "view"
    fee := ← d.get "fee"
    amounts := ← d.get "amounts"
    forkOrExpiry := ← d.get "hf"
    signature := ← d.get "sig" }

instance : OfDocument BridgeRegistration where
  ofDocument d := return {
    blsKey := ← d.get "bls"
    address := ← d.get "eth"
    nodeKey := ← d.get "pubkey"
    signature := ← d.get "sig"
    fee := ← d.get "fee"
    contributors := ← d.get "contributors" }

instance : OfDocument KeyImageUnlock where
  ofDocument d := return ⟨← d.get "key_image", ← d.get "nonce", ← d.get "sig"⟩

instance : OfDocument BridgeExit where
  ofDocument d := return ⟨← d.get "bls", ← d.get "eth", ← d.get "amount"⟩

/-- Extra fields carry the name of their kind as their field `t`. -/
instance : OfDocument ExtraField where
  ofDocument d := do
    match ← (d.get "t" : Reading String) with
    | "TxPublicKey" => return .txPublicKey (← d.get "key")
    | "ServiceNodePubkey" => return .nodeKey (← d.get "key")
    | "TxSecretKey" => return .txSecretKey (← d.get "key")
    | "ServiceNodeWinner" => return .winner (← d.get "key")
    | "ServiceNodeContributor" => return .contributor (← d.get "addr")
    | "ServiceNodeRegister" => return .registration (← ofDocument d)
    | "KeyImageProofs" => return .keyImageProofs (← d.get "proofs")
    | "KeyImageUnlock" => return .keyImageUnlock (← ofDocument d)
    | "StateChange" => return .stateChange (← ofDocument d)
    | "EthNewServiceNode" => return .bridgeRegistration (← ofDocument d)
    | "EthLeaveRequest" => return .bridgeLeave (← d.get "bls")
    | "EthDeregister" => return .bridgeDeregister (← d.get "bls")
    | "EthExit" => return .bridgeExit (← ofDocument d)
    | _ => throw "extra field expected"

/-- The fields of an extra field, and the name of its kind. -/
def ExtraField.entries : ExtraField → String × List (String × Document)
  | .txPublicKey key => ("TxPublicKey", [entry "key" key])
  | .nodeKey key => ("ServiceNodePubkey", [entry "key" key])
  | .txSecretKey key => ("TxSecretKey", [entry "key" key])
  | .winner key => ("ServiceNodeWinner", [entry "key" key])
  | .contributor a => ("ServiceNodeContributor", [entry "addr" a])
  | .registration r =>
      ("ServiceNodeRegister",
        [entry "spend" r.spendKeys, entry "view" r.viewKeys, entry "fee" r.fee,
          entry "amounts" r.amounts, entry "hf" r.forkOrExpiry, entry "sig" r.signature])
  | .keyImageProofs proofs => ("KeyImageProofs", [entry "proofs" proofs])
  | .keyImageUnlock u =>
      ("KeyImageUnlock",
        [entry "key_image" u.keyImage, entry "nonce" u.nonce, entry "sig" u.signature])
  | .stateChange c =>
      ("StateChange",
        [entry "state" c.kind, entry "height" c.height, entry "index" c.index,
          entry "reason_all" c.reasonAll, entry "reason_any" c.reasonAny,
          entry "votes" c.votes])
  | .bridgeRegistration r =>
      ("EthNewServiceNode",
        [entry "bls" r.blsKey, entry "eth" r.address, entry "pubkey" r.nodeKey,
          entry "sig" r.signature, entry "fee" r.fee, entry "contributors" r.contributors])
  | .bridgeLeave b => ("EthLeaveRequest", [entry "bls" b])
  | .bridgeDeregister b => ("EthDeregister", [entry "bls" b])
  | .bridgeExit e =>
      ("EthExit", [entry "bls" e.blsKey, entry "eth" e.address, entry "amount" e.amount])

instance : ToDocument ExtraField where
  toDocument e := .record (entry "t" e.entries.1 :: e.entries.2)

instance : OfDocument Transaction where
  ofDocument d := return {
    hash := ← d.get "hash"
    version := ← d.get "version"
    kind := ← d.get "type"
    unlockTime := ← d.get "unlock_time"
    outputUnlockTimes := ← d.get "output_unlock_times"
    outputs := ← d.get "outputs"
    extra := ← d.get "extra" }

instance : ToDocument Transaction where
  toDocument t :=
    .record [entry "hash" t.hash, entry "version" t.version, entry "type" t.kind,
      entry "unlock_time" t.unlockTime, entry "output_unlock_times" t.outputUnlockTimes,
      entry "outputs" t.outputs, entry "extra" t.extra]

/-! ## Blocks -/

instance : OfDocument QuorumSignature := ⟨fun d => return ⟨← d.nth 0, ← d.nth 1⟩⟩

instance : ToDocument QuorumSignature := ⟨fun s => toDocument (s.voterIndex, s.signature)⟩

instance : OfDocument Block where
  ofDocument d := return {
    height := ← d.get "height"
    hash := ← d.get "hash"
    prevHash := ← d.get "prev_hash"
    fork := ← d.get "hf"
    timestamp := ← d.get "timestamp"
    nonce := ← d.get "nonce"
    pulse := ⟨← d.get "round", ← d.get "bitset", ← d.get "random"⟩
    signatures := ← d.get "signatures"
    minerTx := ← d.get "miner_tx"
    txHashes := ← d.get "tx_hashes" }

instance : ToDocument Block where
  toDocument b :=
    .record [entry "height" b.height, entry "hash" b.hash, entry "prev_hash" b.prevHash,
      entry "hf" b.fork, entry "timestamp" b.timestamp, entry "nonce" b.nonce,
      entry "round" b.pulse.round, entry "bitset" b.pulse.bitset,
      entry "random" b.pulse.random, entry "signatures" b.signatures,
      entry "miner_tx" b.minerTx, entry "tx_hashes" b.txHashes]

instance : OfDocument Checkpoint where
  ofDocument d := return ⟨← d.get "height", ← d.get "block_hash", ← d.get "signatures"⟩

instance : ToDocument Checkpoint where
  toDocument c :=
    .record [entry "height" c.height, entry "block_hash" c.blockHash,
      entry "signatures" c.signatures]

/-- A chain: canonical blocks, blocks of other branches, and transactions known to it. -/
instance : OfDocument Chain where
  ofDocument d := do
    let blocks : List Block ← d.get "blocks"
    let others : List Block ← d.get "alt_blocks"
    let chain := blocks.foldl (fun c b => c.addBlock b []) Chain.empty
    let chain := others.foldl (fun c b => c.addAltBlock b []) chain
    return chain.addTransactions (← d.get "txs")

end StakeRegistry
