import StakeRegistry.Document.Errors
import StakeRegistry.Document.Registry
import StakeRegistry.Document.Uptime
import StakeRegistry.Live.Uptime

/-!
# Reports of a running node as documents
-/

set_option autoImplicit false

namespace StakeRegistry

/-- A quorum in short: the first bytes of every key. -/
def Quorum.brief (q : Quorum) : Document :=
  let start (key : PublicKey) : List UInt8 := key.toList.take 4
  toDocument (q.validators.map start, q.workers.map start)

/-- The fields that tell how an operation ended. -/
def endingEntries (result : Except RegistryError Unit) : List (String × Document) :=
  match result with
  | .ok () => [entry "ok" true]
  | .error e => [entry "error" e.kind, entry "message" e.message]

/-- The fields that describe a head, and how it differs from the one before. -/
def headEntries (before after : Registry) : List (String × Document) :=
  let (removed, set) := before.changes after
  [entry "height" after.height, entry "block_hash" after.blockHash, entry "removed" removed,
    entry "set" set, entry "leader" after.leader,
    entry "quorums" (Document.record (quorumKindNames.map fun (kind, name) =>
      entry name ((after.quorums.get kind).map Quorum.brief)))]

instance : ToDocument ProofAcceptance where
  toDocument a := .record [entry "mine" a.isOwn, entry "new_x25519" a.newTransportKey]

end StakeRegistry
