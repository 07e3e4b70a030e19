import StakeRegistry.History.Basic

/-!
# Looking up past registries

What votes and signatures are checked against: the head, the head before it while a block is
being applied, the tiers of history, and registries of other branches where those count.
-/

set_option autoImplicit false

namespace StakeRegistry

/-- A view of the registry's past. -/
structure HistoryView where
  head : Registry
  /-- The head before a block that is being applied, not yet part of the history. -/
  previous : Option Registry
  history : History
  /-- The registries of other branches that count, in the order in which they are tried. -/
  alternatives : List Registry

/-- The height at which a quorum is looked up: a checkpoint's lies below the checkpoint. -/
def quorumHeight (kind : QuorumKind) (height : Nat) : Nat :=
  if kind = .checkpointing then height - reorgSafetyBuffer else height

namespace HistoryView

/-- A view of the canonical chain. -/
def of (head : Registry) (history : History) : HistoryView := ⟨head, none, history, []⟩

/-- The view with the head before the block that is being applied. -/
def withPrevious (view : HistoryView) (previous : Registry) : HistoryView :=
  { view with previous := some previous }

/-- The view in which other branches count. -/
def withAlternatives (view : HistoryView) : HistoryView :=
  { view with alternatives := view.history.alternatives.values }

/-- The registry of a height; in the archive it may hold quorums only. -/
def state? (view : HistoryView) (height : Nat) : Option Registry :=
  if view.head.height = height then some view.head
  else match view.previous.filter fun r => r.height == height with
    | some r => some r
    | none => (view.history.recent.get? height).or (view.history.archive.get? height)

/-- The quorums of a height, where wanted also those whose registry is gone. -/
def quorums? (view : HistoryView) (height : Nat) (includeOld : Bool) : Option Quorums :=
  match view.state? height with
  | some r => some r.quorums
  | none => if includeOld then view.history.oldQuorums? height else none

/-- The registries of other branches at a height that count. -/
def alternativesAt (view : HistoryView) (height : Nat) : List Registry :=
  view.alternatives.filter fun r => r.height == height

/-- The quorum of a kind for a height. -/
def quorum? (view : HistoryView) (kind : QuorumKind) (height : Nat) (includeOld : Bool) :
    Option Quorum :=
  (view.quorums? (quorumHeight kind height) includeOld).bind (·.get kind)

/-- The quorums of a kind for a height on all other branches. -/
def branchQuorums (view : HistoryView) (kind : QuorumKind) (height : Nat) : List Quorum :=
  (view.history.alternatives.values.filter fun r => r.height == quorumHeight kind height).filterMap
    fun r => r.quorums.get kind

end HistoryView

end StakeRegistry
