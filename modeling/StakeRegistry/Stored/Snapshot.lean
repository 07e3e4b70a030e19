import StakeRegistry.Error
import StakeRegistry.History.Basic
import StakeRegistry.Stored.Upgrade

/-!
# Snapshots

What of a head and its history is stored, in two pieces: the long-term data with the archive,
which seldom changes, and the short-term data with the old quorums, the registries that votes
may still refer to, and the head. `restore` makes a head and a history of the two.
-/

set_option autoImplicit false

namespace StakeRegistry

/-- The version of stored data. -/
def dataVersion : Nat := 1

namespace History

/-- The greatest height of a recent registry that is stored, below a head at `height`. Those
below it are stored for their quorums only. -/
def maxShortTerm (height : Nat) : Nat := cullHeight (height - 1) + voteLifetime + voteBuffer

/-- The long-term data: the archive. -/
def longTerm (h : History) : StoredData :=
  ⟨dataVersion, [], h.archive.values.map (·.stored false)⟩

/-- The short-term data: the old quorums, the older ones of the recent registries, and the head
as the last registry. -/
def shortTerm (h : History) (head : Registry) : StoredData :=
  let limit := maxShortTerm head.height
  -- The registry at the limit itself is stored in full.
  let kept := h.recent.toList.filter fun p => decide (p.1 ≤ limit)
  { version := dataVersion
    quorums := h.old.toList.map fun q => StoredQuorums.of q.height q.quorums
    states := kept.map (fun p => p.2.stored (decide (p.1 < limit))) ++ [head.stored false] }

end History

/-! ## Restoring -/

/-- Registries by height; of two of one height the later counts. -/
def byHeight (l : List Registry) : SortedMap Nat Registry :=
  SortedMap.ofList (l.map fun r => (r.height, r))

/-- Whether every number is greater than the one before it. -/
def ascends : List Nat → Bool
  | a :: b :: rest => decide (a < b) && ascends (b :: rest)
  | _ => true

theorem ascends_iff_pairwise (l : List Nat) : ascends l = true ↔ l.Pairwise (· < ·) := by
  induction l with
  | nil => simp [ascends]
  | cons a l ih =>
      cases l with
      | nil => simp [ascends]
      | cons b rest =>
          simp only [ascends, Bool.and_eq_true, decide_eq_true_eq, ih]
          constructor
          · rintro ⟨hab, h⟩
            refine List.pairwise_cons.2 ⟨fun c hc => ?_, h⟩
            rcases List.mem_cons.1 hc with rfl | hc
            · exact hab
            · exact Nat.lt_trans hab ((List.pairwise_cons.1 h).1 c hc)
          · intro h
            have hcons := List.pairwise_cons.1 h
            exact ⟨hcons.1 b (by simp), hcons.2⟩

/-- The old quorums from a height on, which must ascend. -/
def StoredData.oldFrom (d : StoredData) (height : Nat) : Except StoreError (List QuorumsAt) :=
  let kept := d.quorums.filter fun q => decide (height ≤ q.height)
  if ascends (kept.map (·.height)) then .ok (kept.map fun q => ⟨q.height, q.quorums⟩)
  else .error .unsortedQuorums

/-- The stored head. -/
def StoredData.head (d : StoredData) : Except StoreError StoredState :=
  match d.states.getLast? with
  | none => .error .noHead
  | some head => if head.quorumsOnly then .error .strippedHead else .ok head

/-- A head and a history. -/
structure Restored where
  head : Registry
  history : History
  deriving DecidableEq

/-- The head and the history of stored data. Old quorums are kept as far back from
`currentHeight` as the setting for them asks. -/
def restore (ctx : LoadContext) (long : Option StoredData) (short : StoredData)
    (currentHeight setting : Nat) : Except StoreError Restored := do
  let history := History.new setting
  let old ← short.oldFrom (currentHeight - history.oldLimit)
  let head ← short.head
  let registries (l : List StoredState) := byHeight (l.map (·.registry ctx))
  return {
    head := head.registry ctx
    history := { history with
      recent := registries short.states.dropLast
      archive := registries ((long.map (·.states)).getD [])
      old := Ring.ofList old } }

end StakeRegistry
