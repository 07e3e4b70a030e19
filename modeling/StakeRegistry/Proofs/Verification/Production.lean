import StakeRegistry.Proofs.Transition.Accounting
import StakeRegistry.Proofs.Verification.Signatures
import StakeRegistry.Verification.Block

/-!
# Which blocks of the canonical chain are accepted

From service nodes on there are two kinds of blocks. A Pulse block is sealed by the Pulse
quorum of its height and, off the fake chain, dated within its round (`Block.ByPulse`). A
miner's block has no Pulse data and stands where there is no quorum to produce the block: before
the Pulse fork, at a height without a quorum, or after the last round (`Block.ByMiner`).

* `verifyBlock_eq_ok_iff`: these are exactly the blocks that verify, where all rounds after the
  parent end within the range of times.
* `Block.ByPulse.not_byMiner`: no block is of both kinds.
-/

set_option autoImplicit false

namespace StakeRegistry

/-- A block without anything of a Pulse quorum. -/
structure Block.Bare (block : Block) : Prop where
  bitset : block.pulse.bitset = 0
  signatures : block.signatures = []
  round : block.pulse.round = 0

/-- A block was produced by the Pulse quorum of its height, in its round after `parent`. -/
structure Block.ByPulse (ctx : Context) (block parent : Block) : Prop where
  fork : HardFork.pulse ≤ block.fork
  nonce : block.nonce = 0
  sealed : ∃ q, ctx.view.quorum? .pulse block.height false = some q ∧ block.SealedBy ctx.suite q
  onTime : ctx.rules.isFakechain = false →
    parent.timestamp + 120 + 60 * block.pulse.round ≤ block.timestamp ∧
      block.timestamp ≤ parent.timestamp + 120 + 60 * (block.pulse.round + 1) ∧
      block.timestamp < parent.timestamp + 120 + 255 * 60

/-- A block was produced by a miner, when no Pulse quorum was there to produce it. -/
structure Block.ByMiner (ctx : Context) (block parent : Block) : Prop where
  bare : block.Bare
  permitted : block.fork < HardFork.pulse ∨
    ctx.view.quorum? .pulse block.height false = none ∨
    ctx.rules.isFakechain = false ∧ parent.timestamp + 120 + 255 * 60 ≤ block.timestamp

/-! ## Pulse data -/

theorem Block.hasPulseComponents_eq_false_iff {block : Block} :
    block.hasPulseComponents = false ↔ block.pulse.bitset = 0 ∧ block.signatures = [] := by
  simp [Block.hasPulseComponents]

theorem Block.SealedBy.hasPulseComponents {suite : CryptoSuite} {block : Block} {q : Quorum}
    (h : block.SealedBy suite q) : block.hasPulseComponents = true := by
  by_contra hnone
  rw [Bool.not_eq_true, Block.hasPulseComponents_eq_false_iff] at hnone
  have hcount := h.count
  rw [hnone.2] at hcount
  cases hcount

/-- A block of a Pulse quorum is no miner's block. -/
theorem Block.ByPulse.not_byMiner {ctx : Context} {block parent : Block}
    (h : block.ByPulse ctx parent) : ¬ block.ByMiner ctx parent := by
  intro hminer
  obtain ⟨q, -, hsealed⟩ := h.sealed
  have hnone := Block.hasPulseComponents_eq_false_iff.2
    ⟨hminer.bare.bitset, hminer.bare.signatures⟩
  rw [hsealed.hasPulseComponents] at hnone
  cases hnone

/-! ## Rounds -/

section Rounds

variable {timestamp round : Nat}

/-- Where all rounds end within the range of times, so do the first times of each. -/
theorem RoundTimings.first_after (hround : round ≤ 255)
    (hfits : timestamp + 120 + 255 * 60 ≤ maxU64) :
    (RoundTimings.after timestamp).first round = timestamp + 120 + 60 * round := by
  have hzero : wrapAdd timestamp blockTime = timestamp + 120 :=
    wrapAdd_of_le (Nat.le_trans (Nat.le_add_right _ _) hfits)
  show wrapAdd (wrapAdd timestamp blockTime) (round * roundTime) = _
  rw [hzero, roundTime, wrapAdd_of_le (by omega), Nat.mul_comm]

theorem RoundTimings.minerFallback_after (hfits : timestamp + 120 + 255 * 60 ≤ maxU64) :
    (RoundTimings.after timestamp).minerFallback = timestamp + 120 + 255 * 60 :=
  first_after (Nat.le_refl _) hfits

/-- One second later it comes round to zero. -/
example : (RoundTimings.after (maxU64 - 15419)).minerFallback = 0 := by decide

/-- A time before the fallback is in a round exactly if it is within a minute of its beginning. -/
theorem RoundTimings.within_iff (hround : round ≤ 255)
    (hfits : timestamp + 120 + 255 * 60 ≤ maxU64) {time : Nat}
    (hearly : time < timestamp + 120 + 255 * 60) :
    (RoundTimings.after timestamp).first round ≤ time ∧
        time ≤ (RoundTimings.after timestamp).last round ↔
      timestamp + 120 + 60 * round ≤ time ∧ time ≤ timestamp + 120 + 60 * (round + 1) := by
  unfold last
  rw [first_after hround hfits]
  rcases Nat.lt_or_ge round 255 with hlast | hpast
  · rw [roundTime, wrapAdd_of_le (by omega)]
    omega
  · -- No time before the fallback is in a round past the last one.
    omega

end Rounds

/-! ## The two checks -/

theorem verifyMinerBlock_eq_ok_iff {block : Block} {isAlt : Bool} {quorum : Option Quorum} :
    verifyMinerBlock block isAlt quorum = .ok () ↔ block.Bare := by
  unfold verifyMinerBlock
  constructor
  · intro h
    split at h
    · cases h
    rename_i hpulse
    split at h
    · cases h
    rename_i hround
    obtain ⟨hbitset, hsignatures⟩ :=
      Block.hasPulseComponents_eq_false_iff.1 (Bool.eq_false_iff.2 hpulse)
    exact ⟨hbitset, hsignatures, Decidable.not_not.1 hround⟩
  · rintro ⟨hbitset, hsignatures, hround⟩
    rw [if_neg (by simp [Block.hasPulseComponents_eq_false_iff.2 ⟨hbitset, hsignatures⟩]),
      if_neg (by simp [hround])]

theorem verifyPulseQuorum_eq_ok_iff {suite : CryptoSuite} {block : Block}
    {quorum : Option Quorum} {branches : List Quorum} :
    verifyPulseQuorum suite block false quorum branches = .ok () ↔
      ∃ q, quorum = some q ∧ block.SealedBy suite q := by
  cases quorum with
  | none => simp [verifyPulseQuorum]
  | some q =>
      have hseal : verifyPulseSignatures suite q block = .ok () ↔ block.SealedBy suite q :=
        verifyPulseSignatures_eq_ok_iff
      cases hcheck : verifyPulseSignatures suite q block with
      | ok _ =>
          simp only [verifyPulseQuorum, hcheck]
          exact ⟨fun _ => ⟨q, rfl, hseal.1 hcheck⟩, fun _ => rfl⟩
      | error e =>
          simp only [verifyPulseQuorum, hcheck]
          refine ⟨nofun, ?_⟩
          rintro ⟨q', hsame, hsealed⟩
          cases hsame
          rw [hseal.2 hsealed] at hcheck
          cases hcheck

/-- A block of the canonical chain passes as the work of a Pulse quorum exactly if it is dated
within its round, has no nonce and is sealed by that quorum. -/
theorem verifyPulseBlock_eq_ok_iff {suite : CryptoSuite} {rules : NetworkRules} {block : Block}
    {timings : RoundTimings} {quorum : Option Quorum} {branches : List Quorum} :
    verifyPulseBlock suite rules block false timings quorum branches = .ok () ↔
      (rules.isFakechain = false → timings.first block.pulse.round ≤ block.timestamp ∧
        block.timestamp ≤ timings.last block.pulse.round) ∧
      block.nonce = 0 ∧ ∃ q, quorum = some q ∧ block.SealedBy suite q := by
  unfold verifyPulseBlock
  dsimp only
  constructor
  · intro h
    split at h
    · cases h
    split at h
    · cases h
    rename_i htime
    split at h
    · cases h
    rename_i hnonce
    refine ⟨fun hreal => ?_, Decidable.not_not.1 hnonce, verifyPulseQuorum_eq_ok_iff.1 h⟩
    rw [hreal] at htime
    simpa using htime
  · rintro ⟨htime, hnonce, q, hquorum, hsealed⟩
    rw [if_neg (by simp [hsealed.hasPulseComponents]), if_neg ?_, if_neg (by simp [hnonce])]
    · exact verifyPulseQuorum_eq_ok_iff.2 ⟨q, hquorum, hsealed⟩
    · rintro ⟨hreal, hlate⟩
      exact hlate (htime (by simpa using hreal))

/-! ## Canonical blocks -/

/-- All rounds after a parent's timestamp are over when the block is dated. -/
def Context.RoundsOver (ctx : Context) (block parent : Block) : Prop :=
  ctx.rules.isFakechain = false ∧ parent.timestamp + 120 + 255 * 60 ≤ block.timestamp

theorem Context.roundsOver_iff {ctx : Context} {block parent : Block}
    (hfits : parent.timestamp + 120 + 255 * 60 ≤ maxU64) :
    ctx.RoundsOver block parent ↔ ctx.rules.isFakechain = false ∧
      (RoundTimings.after parent.timestamp).minerFallback ≤ block.timestamp := by
  rw [RoundTimings.minerFallback_after hfits]
  exact Iff.rfl

/-- A block of a Pulse quorum has one, and is dated before the rounds are over. -/
theorem Block.ByPulse.awaited {ctx : Context} {block parent : Block}
    (h : block.ByPulse ctx parent) :
    ¬ (ctx.view.quorum? .pulse block.height false = none ∨ ctx.RoundsOver block parent) := by
  rintro (hnone | ⟨hreal, hlate⟩)
  · obtain ⟨q, hq, -⟩ := h.sealed
    rw [hq] at hnone
    cases hnone
  · exact Nat.not_le.2 (h.onTime hreal).2.2 hlate

/-- Without a quorum, or after the last round, a canonical block is checked as a miner's. -/
theorem verifyWithPulse_of_no_quorum {ctx : Context} {block parent : Block}
    (hfits : parent.timestamp + 120 + 255 * 60 ≤ maxU64)
    (h : ctx.view.quorum? .pulse block.height false = none ∨ ctx.RoundsOver block parent) :
    verifyWithPulse ctx block false parent.timestamp = verifyMinerBlock block false none := by
  unfold verifyWithPulse verifyComponents
  dsimp only
  rcases h with hq | hover
  · simp [hq]
  · simp [(Context.roundsOver_iff hfits).1 hover]

/-- As long as rounds last, a canonical block is checked against the quorum of its height. -/
theorem verifyWithPulse_of_quorum {ctx : Context} {block parent : Block} {q : Quorum}
    (hfits : parent.timestamp + 120 + 255 * 60 ≤ maxU64)
    (hq : ctx.view.quorum? .pulse block.height false = some q)
    (hover : ¬ ctx.RoundsOver block parent) :
    verifyWithPulse ctx block false parent.timestamp =
      verifyPulseBlock ctx.suite ctx.rules block false (.after parent.timestamp) (some q) [] := by
  rw [Context.roundsOver_iff hfits] at hover
  unfold verifyWithPulse verifyComponents
  dsimp only
  simp [hover, hq]

/-- From the Pulse fork on the quorum of its height produces a block, or else a miner does. -/
theorem verifyWithPulse_eq_ok_iff {ctx : Context} {block parent : Block}
    (hfork : HardFork.pulse ≤ block.fork) (hround : block.pulse.round ≤ 255)
    (hfits : parent.timestamp + 120 + 255 * 60 ≤ maxU64) :
    verifyWithPulse ctx block false parent.timestamp = .ok () ↔
      block.ByPulse ctx parent ∨ block.ByMiner ctx parent := by
  by_cases hminer : ctx.view.quorum? .pulse block.height false = none ∨ ctx.RoundsOver block parent
  · rw [verifyWithPulse_of_no_quorum hfits hminer, verifyMinerBlock_eq_ok_iff]
    refine ⟨fun hbare => .inr ⟨hbare, .inr hminer⟩, ?_⟩
    rintro (hpulse | hbyMiner)
    · exact absurd hminer hpulse.awaited
    · exact hbyMiner.bare
  · obtain ⟨hq, hover⟩ := not_or.1 hminer
    obtain ⟨q, hq⟩ := Option.ne_none_iff_exists'.1 hq
    have hearly : ctx.rules.isFakechain = false →
        block.timestamp < parent.timestamp + 120 + 255 * 60 :=
      fun hreal => Nat.lt_of_not_le fun hlate => hover ⟨hreal, hlate⟩
    rw [verifyWithPulse_of_quorum hfits hq hover, verifyPulseBlock_eq_ok_iff]
    constructor
    · rintro ⟨htime, hnonce, q', hsame, hsealed⟩
      cases hsame
      refine .inl ⟨hfork, hnonce, ⟨q, hq, hsealed⟩, fun hreal => ?_⟩
      obtain ⟨hfrom, hto⟩ :=
        (RoundTimings.within_iff hround hfits (hearly hreal)).1 (htime hreal)
      exact ⟨hfrom, hto, hearly hreal⟩
    · rintro (⟨-, hnonce, hsealed, htime⟩ | ⟨-, hold | hnone⟩)
      · rw [hq] at hsealed
        refine ⟨fun hreal => ?_, hnonce, hsealed⟩
        obtain ⟨hfrom, hto, -⟩ := htime hreal
        exact (RoundTimings.within_iff hround hfits (hearly hreal)).2 ⟨hfrom, hto⟩
      · exact absurd hold (HardFork.not_lt.2 hfork)
      · exact absurd hnone hminer

/-- Before the Pulse fork a block is a miner's. -/
theorem verifyProduction_eq_ok_iff {ctx : Context} {block parent : Block}
    (hround : block.pulse.round ≤ 255)
    (hparent : HardFork.pulse ≤ block.fork →
      ctx.chain.blockByHash? block.prevHash = some parent ∧
        parent.timestamp + 120 + 255 * 60 ≤ maxU64) :
    verifyProduction ctx block false = .ok () ↔
      block.ByPulse ctx parent ∨ block.ByMiner ctx parent := by
  unfold verifyProduction
  by_cases hfork : HardFork.pulse ≤ block.fork
  · obtain ⟨hknown, hfits⟩ := hparent hfork
    rw [if_pos hfork, hknown]
    exact verifyWithPulse_eq_ok_iff hfork hround hfits
  · rw [if_neg hfork, verifyMinerBlock_eq_ok_iff]
    constructor
    · exact fun hbare => .inr ⟨hbare, .inl (Nat.lt_of_not_le hfork)⟩
    · rintro (hpulse | hminer)
      · exact absurd hpulse.fork hfork
      · exact hminer.bare

end StakeRegistry
