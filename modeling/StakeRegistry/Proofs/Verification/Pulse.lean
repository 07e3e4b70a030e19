import StakeRegistry.Proofs.Transition.Step
import StakeRegistry.Verification.Block

/-!
# The quorum behind a verified Pulse block

A canonical block with Pulse data that verifies was checked against the Pulse quorum of its
height, so that quorum is on record (`exists_quorum_of_verifyBlock`). Before the Pulse fork,
after the last round and without a quorum the block would count as a miner's, and a miner's
block with Pulse data is refused.
-/

set_option autoImplicit false

namespace StakeRegistry

/-- A block that passes as a miner's carries no Pulse data. -/
theorem hasPulseComponents_of_verifyMinerBlock {block : Block} {isAlt : Bool}
    {quorum : Option Quorum} (h : verifyMinerBlock block isAlt quorum = .ok ()) :
    block.hasPulseComponents = false := by
  cases hpulse : block.hasPulseComponents with
  | false => rfl
  | true => simp [verifyMinerBlock, hpulse] at h

/-- A block with Pulse data passes only if there is a quorum at its height. -/
theorem exists_quorum_of_verifyWithPulse {ctx : Context} {block : Block} {parentTimestamp : Nat}
    (h : verifyWithPulse ctx block false parentTimestamp = .ok ())
    (hpulse : block.hasPulseComponents = true) :
    ∃ q, ctx.view.quorum? .pulse block.height false = some q := by
  cases hq : ctx.view.quorum? .pulse block.height false with
  | some q => exact ⟨q, rfl⟩
  | none =>
      have hminer : ∃ quorum, verifyMinerBlock block false quorum = .ok () := by
        refine ⟨none, ?_⟩
        simpa [verifyWithPulse, hq, verifyComponents] using h
      obtain ⟨quorum, hminer⟩ := hminer
      have hnot := hasPulseComponents_of_verifyMinerBlock hminer
      rw [hpulse] at hnot
      cases hnot

theorem exists_quorum_of_verifyProduction {ctx : Context} {block : Block}
    (h : verifyProduction ctx block false = .ok ()) (hpulse : block.hasPulseComponents = true) :
    ∃ q, ctx.view.quorum? .pulse block.height false = some q := by
  unfold verifyProduction at h
  split at h
  case isTrue =>
    split at h
    case h_1 => cases h
    case h_2 parent _ => exact exists_quorum_of_verifyWithPulse h hpulse
  case isFalse =>
    have hnot := hasPulseComponents_of_verifyMinerBlock h
    rw [hpulse] at hnot
    cases hnot

/-- A verified block of the canonical chain with Pulse data has its quorum on record. -/
theorem exists_quorum_of_verifyBlock {ctx : Context} {block : Block}
    {checkpoint : Option Checkpoint} (hfork : HardFork.serviceNodes ≤ block.fork)
    (h : verifyBlock ctx block false checkpoint = .ok ())
    (hpulse : block.hasPulseComponents = true) :
    ∃ q, ctx.view.quorum? .pulse block.height false = some q := by
  have hproduced : verifyProduction ctx block false = .ok () := by
    unfold verifyBlock at h
    rw [if_neg (HardFork.not_lt.2 hfork)] at h
    cases hp : verifyProduction ctx block false with
    | ok _ => rfl
    | error e =>
        rw [hp] at h
        -- Whatever the checkpoint's check answers, the block is refused.
        cases checkpoint with
        | none => cases h
        | some c =>
            dsimp only at h
            split at h
            · obtain ⟨_, -, h⟩ := bind_eq_ok_iff.1 h
              cases h
            · cases h
  exact exists_quorum_of_verifyProduction hproduced hpulse

end StakeRegistry
