import StakeRegistry.Chain.Timing
import StakeRegistry.Data.Ring
import StakeRegistry.Registry.Basic

/-!
# History

Past registries in three tiers: recent ones in full; every ten-thousandth one in full for
good, with the quorums of those just before it; and, as far as the operator wants, the quorums
of all others. Registries of other branches are kept apart, by block hash, while they are
recent.
-/

set_option autoImplicit false

namespace StakeRegistry

/-- Heights between registries that are archived in full. -/
def archiveInterval : Nat := 10000

/-- Blocks for which registries are kept in full. -/
def recentBlocks : Nat := 6 * voteLifetime

/-- Blocks by which a vote may be late when it is checked. -/
def voteBuffer : Nat := 5

/-- The quorums of a registry that is no longer kept. -/
structure QuorumsAt where
  height : Nat
  quorums : Quorums
  deriving DecidableEq, Inhabited

/-- Past registries. -/
structure History where
  /-- Recent registries by height. -/
  recent : SortedMap Nat Registry
  /-- Archived registries by height. -/
  archive : SortedMap Nat Registry
  /-- Registries of other branches by block hash. -/
  alternatives : SortedMap Hash Registry
  /-- Quorums of registries that left the recent ones, the oldest first. -/
  old : Ring QuorumsAt
  /-- How many old quorums are kept. -/
  oldLimit : Nat
  /-- Whether the archive has changed since it was last stored. -/
  archiveChanged : Bool
  deriving DecidableEq, Inhabited

namespace History

/-- The number of old quorums that a setting of 0 (none), 1 (all) or more asks for. -/
def limitOf (setting : Nat) : Nat := if setting = 1 then maxU64 else setting

/-- The empty history under a setting for old quorums. -/
def new (setting : Nat) : History := ⟨∅, ∅, ∅, Ring.empty, limitOf setting, false⟩

def setQuorumHistory (h : History) (setting : Nat) : History :=
  { h with oldLimit := limitOf setting }

/-- Forgets every registry. -/
def clear (h : History) : History :=
  { h with recent := ∅, archive := ∅, alternatives := ∅, old := h.old.clear }

/-- The height up to which registries leave the recent ones when a block is added. -/
def cullHeight (blockHeight : Nat) : Nat := blockHeight - recentBlocks

/-- The next height above `height` whose registry is archived in full. -/
def nextArchived (height : Nat) : Nat := (height / archiveInterval + 1) * archiveInterval

/-- Whether votes on registries rebuilt from the archive may refer to the quorums of a
height: it lies just below one that is archived in full. -/
def neededByVotes (height : Nat) : Bool :=
  decide (nextArchived height - height ≤ voteLifetime + voteBuffer)

/-- The form in which a registry is archived, if it is. -/
def archived? (height : Nat) (r : Registry) : Option Registry :=
  if neededByVotes height then some r.toQuorumsOnly
  else if height % archiveInterval = 0 then some r
  else none

/-- Moves one registry from the recent ones to the archive and to the old quorums. -/
def retire (h : History) (height : Nat) (r : Registry) : History :=
  let h := if h.oldLimit > 0 then { h with old := h.old.push ⟨height, r.quorums⟩ } else h
  match archived? height r with
  | some kept => { h with archive := h.archive.insert height kept, archiveChanged := true }
  | none => h

/-- Retires the registries that a block makes too old, and keeps the registry that was the
head before the block. -/
def push (h : History) (blockHeight : Nat) (previous : Registry) : History :=
  let floor := cullHeight blockHeight
  -- The registry at the floor itself leaves, the one above it is the oldest that stays.
  let leaving := h.recent.filter fun height _ => decide (height ≤ floor)
  let h := { h with recent := h.recent.filter fun height _ => decide (floor < height) }
  let h := leaving.toList.foldl (fun h p => h.retire p.1 p.2) h
  { h with
    old := h.old.drop (h.old.length - h.oldLimit)
    alternatives := h.alternatives.filter fun _ r => decide (floor ≤ r.height)
    recent := h.recent.insert previous.height previous }

/-! ## Going back -/

/-- The registry that a chain resumes from after blocks were dropped. -/
inductive Rewind where
  /-- The registry of the height asked for. -/
  | restored (r : Registry)
  /-- The last archived registry; the blocks above it have to be applied again. -/
  | fromArchive (r : Registry)
  /-- Nothing is left to resume from. -/
  | reinitialise
  deriving DecidableEq

/-- The registry at a height of a tier, if it is kept there in full. -/
def fullAt? (tier : SortedMap Nat Registry) (height : Nat) : Option Registry :=
  (tier.get? height).filter fun r => !r.quorumsOnly

/-- Goes back to the registry of a height, and forgets those above it. -/
def rewind (h : History) (height : Nat) : Rewind × History :=
  match fullAt? h.recent height with
  | some r => (.restored r, { h with recent := h.recent.filter fun k _ => decide (k < height) })
  | none =>
      let sample := height - height % archiveInterval
      match fullAt? h.archive sample with
      | some r =>
          (.fromArchive r,
            { h with
              recent := ∅
              archive := h.archive.filter fun k _ => decide (k < sample) })
      | none => (.reinitialise, { h with recent := ∅, archive := ∅ })

/-! ## Old quorums -/

/-- The old quorums of a height, found by halving: heights are meant to ascend. -/
def oldQuorums? (h : History) (height : Nat) : Option Quorums :=
  let index := h.old.countLeading fun e => decide (e.height < height)
  (h.old.toList[index]?.filter fun e => e.height == height).map (·.quorums)

end History

end StakeRegistry
