import StakeRegistry.Document.Registry
import StakeRegistry.Document.Settings
import StakeRegistry.Document.Uptime
import StakeRegistry.Stored.Records
import StakeRegistry.Stored.Snapshot

/-!
# Stored data as documents
-/

set_option autoImplicit false

namespace StakeRegistry

/-! ## Layouts -/

instance : OfDocument StoredQuorums where
  ofDocument d := return ⟨← d.get "version", ← d.get "height", ← d.get "quorums"⟩

instance : ToDocument StoredQuorums where
  toDocument q :=
    .record [entry "version" q.version, entry "height" q.height, entry "quorums" q.slots]

instance : OfDocument StoredState where
  ofDocument d := return {
    version := ← d.get "version"
    height := ← d.get "height"
    nodes := ← nodesOf d
    blacklist := ← d.get "blacklist"
    quorums := ← d.get "quorums"
    quorumsOnly := ← d.get "only_stored_quorums"
    blockHash := ← d.get "block_hash" }

instance : ToDocument StoredState where
  toDocument s :=
    .record [entry "version" s.version, entry "height" s.height,
      entry "block_hash" s.blockHash, entry "nodes" s.nodes, entry "blacklist" s.blacklist,
      entry "quorums" s.quorums, entry "only_stored_quorums" s.quorumsOnly]

instance : OfDocument StoredData where
  ofDocument d := return ⟨← d.get "version", ← d.get "quorum_states", ← d.get "states"⟩

instance : ToDocument StoredData where
  toDocument d :=
    .record [entry "version" d.version, entry "quorum_states" d.quorums, entry "states" d.states]

instance : OfDocument ProofRecord where
  ofDocument d := return (← (ofDocument d : Reading NodeRecord)).toProofRecord

instance : ToDocument ProofRecord := ⟨fun r => toDocument (NodeRecord.ofStored r)⟩

/-! ## Restoring -/

instance : OfDocument LoadContext where
  ofDocument d := do
    let schedule : Schedule ← d.get "hard_forks"
    let hashes : SortedMap Nat Hash ← d.get "block_hashes"
    return ⟨schedule.forkAt, hashes.get?⟩

instance : ToDocument Restored where
  toDocument r :=
    .record [entry "head" r.head, entry "history" r.history,
      entry "states" r.history.recent.values, entry "archive" r.history.archive.values]

/-! ## Values by the name of their type -/

/-- A type of stored values: how its values are written and read. -/
structure StoredKind where
  /-- The bytes of the value that a document describes. -/
  bytes : Document → Reading (List UInt8)
  /-- The value that bytes write. -/
  value : List UInt8 → Except StoreError Document

def StoredKind.of {α : Type} [OfDocument α] [ToDocument α] (c : Codec α) : StoredKind where
  bytes d := return c.encode (← ofDocument d)
  value bs := match c.read? bs with
    | some a => .ok (toDocument a)
    | none => .error (.unreadable "value")

/-- The types of stored values by their names. -/
def storedKinds : List (String × StoredKind) :=
  [("block", .of Block.codec), ("transaction", .of Transaction.codec),
   ("checkpoint", .of Checkpoint.codec), ("info", .of NodeInfo.codec),
   ("quorum", .of Quorum.codec), ("data", .of StoredData.codec),
   ("proof", .of UptimeProof.codec), ("proof_info", .of ProofRecord.codec)]

/-- Reads the name of a type of stored values. -/
instance : OfDocument StoredKind := ⟨ofNames (storedKinds.map fun (name, k) => (k, name))⟩

end StakeRegistry
