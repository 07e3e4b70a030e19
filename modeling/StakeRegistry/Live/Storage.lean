import StakeRegistry.Live.Basic
import StakeRegistry.Stored.Records

/-!
# Storing and loading

Snapshots are stored in two pieces; the long-term one is written only when the archive has
changed or this registry has not stored it yet. Loading starts from the empty registry: what
cannot be read or restored leaves that behind. Records of nodes are stored one by one.
-/

set_option autoImplicit false

namespace StakeRegistry

namespace LiveRegistry

/-- Forgets the head and its past. -/
def cleared (l : LiveRegistry) : LiveRegistry :=
  { l with
    head := Registry.new l.settings.startHeight
    history := History.new l.history.oldLimit
    recentlyExpired := ∅ }

/-- Forgets the head and its past, and deletes the stored snapshots. -/
def reset (l : LiveRegistry) (s : Surroundings) : LiveResult RegistryError Unit :=
  match s.writeFault with
  | some reason => (.error (.store (.backend reason)), l.cleared)
  | none =>
      (.ok (),
        { l.cleared with
          store := (l.store.erase Store.longTermKey).erase Store.shortTermKey
          savedVersion := none })

/-! ## Snapshots -/

/-- Whether the long-term data has to be written. -/
def longTermDue (l : LiveRegistry) : Bool :=
  l.history.archiveChanged || l.savedVersion != some dataVersion

/-- The store with a snapshot in it. -/
def withSnapshot (l : LiveRegistry) : Store :=
  let store :=
    if l.longTermDue then
      l.store.insert Store.longTermKey (StoredData.codec.encode l.history.longTerm)
    else l.store
  store.insert Store.shortTermKey (StoredData.codec.encode (l.history.shortTerm l.head))

/-- Stores a snapshot, once service nodes exist. -/
def save (l : LiveRegistry) (s : Surroundings) : LiveResult RegistryError Unit :=
  if l.chainFork s < HardFork.serviceNodes then (.ok (), l)
  else match s.writeFault with
  | some reason => (.error (.store (.backend reason)), l)
  | none =>
      (.ok (),
        { l with
          store := l.withSnapshot
          history := { l.history with archiveChanged := false }
          savedVersion := some dataVersion })

/-- What old data is completed from. -/
def loadContext (l : LiveRegistry) (s : Surroundings) : LoadContext :=
  ⟨l.settings.schedule.forkAt, fun height => (s.chain.blockAt? height).map (·.hash)⟩

/-- The stored data under a key, if it is there and can be read. -/
def storedData? (l : LiveRegistry) (key : List UInt8) : Option StoredData :=
  (l.store.get? key).bind StoredData.codec.read?

/-- The snapshot in the store, if there is one. Long-term data that cannot be read counts as
missing. -/
def snapshot? (l : LiveRegistry) (s : Surroundings) (currentHeight : Nat) : Option Restored := do
  let short ← l.storedData? Store.shortTermKey
  (restore (l.loadContext s) (l.storedData? Store.longTermKey) short currentHeight
    l.history.oldLimit).toOption

/-! ## Records -/

/-- The record of a store's entry. The local node's own times are forgotten, so that it sends
a fresh proof soon. -/
def storedRecord? (l : LiveRegistry) (e : List UInt8 × List UInt8) :
    Option (PublicKey × NodeRecord) := do
  let node ← Store.nodeOfKey? e.1
  let record ← ProofRecord.codec.read? e.2
  return (node, .ofStored (if l.localKey = some node then record.clearTimes else record))

/-- The records in the store. -/
def storedRecords (l : LiveRegistry) : NodeRecords :=
  SortedMap.ofList (l.store.recordEntries.filterMap l.storedRecord?)

/-- Stores the records of nodes. A store that cannot be written keeps what it has. -/
def saveRecords (l : LiveRegistry) (s : Surroundings) (nodes : List PublicKey) : LiveRegistry :=
  if s.writeFault.isSome then l
  else
    { l with
      store := nodes.foldl
        (fun store node => match l.records.get? node with
          | some record =>
              store.insert (Store.recordKey node) (ProofRecord.codec.encode record.toProofRecord)
          | none => store) l.store }

/-! ## Loading -/

/-- Adds the registered nodes whose transport keys are known to the map of them. -/
def fillTransport (l : LiveRegistry) (s : Surroundings) : LiveRegistry :=
  { l with transport := l.transport.fillFrom l.head l.records s.now }

/-- Loads the snapshot in the store; answers whether there was one. Two reads fetch the parts of
the snapshot, and a third the records. -/
def load (l : LiveRegistry) (s : Surroundings) (currentHeight : Nat) :
    LiveResult RegistryError Bool :=
  match s.faultWithin 2 with
  | some reason => (.error (.store (.backend reason)), l.cleared)
  | none =>
      match l.cleared.snapshot? s currentHeight with
      | none => (.ok false, l.cleared)
      | some r =>
          let placed := { l.cleared with head := r.head, history := r.history, records := ∅ }
          match s.faultWithin 3 with
          | some reason => (.error (.store (.backend reason)), placed)
          | none => (.ok true, { placed with records := l.storedRecords }.fillTransport s)

end LiveRegistry

end StakeRegistry
