import StakeRegistry.Proofs.Live.Adding
import StakeRegistry.Proofs.Transition.Quorums

/-!
# Mined blocks

While there are too few nodes for Pulse quorums, blocks are mined, and a mined block that comes
next is always taken (`LiveRegistry.addBlock_of_mined`).
-/

set_option autoImplicit false

namespace StakeRegistry

/-- A block without Pulse data. -/
structure Block.IsMined (block : Block) : Prop where
  noComponents : block.hasPulseComponents = false
  roundZero : block.pulse.round = 0

theorem Block.isMined_plain (height : Nat) (fork : HardFork) : (Block.plain height fork).IsMined :=
  ⟨rfl, rfl⟩

theorem pulseQuorum_of_few {minNodes : Nat} {active : NodeList} (hfew : active.length < minNodes)
    (leader : PublicKey) (fork : HardFork) (entropy : List Hash) (round : Nat) :
    pulseQuorum minNodes leader fork active entropy round = ⟨[], []⟩ := by
  unfold pulseQuorum
  split
  · rfl
  · rw [if_pos (Or.inl hfew)]

/-- Too few nodes leave no Pulse quorum behind. -/
theorem Registry.pulse_eq_none_of_few {r next : Registry} {ctx : Context} {block : Block}
    {txs : List Transaction} {outcome : Outcome}
    (hfew : r.active.length < ctx.rules.pulseMinNodes)
    (h : r.apply ctx block txs = .ok (next, outcome)) : next.quorums.pulse = none := by
  obtain ⟨-, -, quorums, hdrawn, rfl⟩ := apply_eq_ok_iff.1 h
  have hpulse := pulse_of_drawQuorums hdrawn
  rw [(samePlace_settled r ctx block txs).quorums, (samePlace_opened r ctx block).quorums] at hpulse
  have hformed : ((r.atBlock block).formPulseQuorum ctx block
      (block.minerTx.winner?.getD 0)).quorums.pulse = none := by
    unfold formPulseQuorum quorumProducing
    split
    · rfl
    · dsimp only
      rw [pulseQuorum_of_few (show (r.atBlock block).active.length < _ from hfew)]
      rfl
  exact hpulse.trans hformed

/-- A mined block verifies where no Pulse quorum has to have produced it. -/
theorem verifyBlock_of_mined {ctx : Context} {block : Block} (hmined : block.IsMined)
    (isAlt : Bool) (hparent : (ctx.chain.blockByHash? block.prevHash).isSome = true)
    (hquorum : isAlt = false → ctx.view.quorum? .pulse block.height false = none) :
    verifyBlock ctx block isAlt none = .ok () := by
  have hminer : ∀ quorum, verifyMinerBlock block isAlt quorum = .ok () := by
    intro quorum
    unfold verifyMinerBlock
    simp [hmined.noComponents, hmined.roundZero]
  have hproduced : verifyProduction ctx block isAlt = .ok () := by
    unfold verifyProduction
    split
    · obtain ⟨parent, hparent⟩ := Option.isSome_iff_exists.1 hparent
      rw [hparent]
      dsimp only
      unfold verifyWithPulse verifyComponents
      cases isAlt with
      | true =>
          -- On another branch either form will do.
          simp only [Bool.false_eq_true, if_false, if_true, hminer, ite_self]
      | false =>
          dsimp only
          rw [hquorum rfl]
          simp [hminer]
    · exact hminer _
  unfold verifyBlock
  rw [hproduced]
  split <;> rfl

namespace LiveRegistry

/-- While there are too few nodes for a Pulse quorum, a mined block that comes next moves the
head on. -/
theorem advance_of_mined (l : LiveRegistry) (s : Surroundings) {block : Block}
    (txs : List Transaction) (hmined : block.IsMined)
    (hparent : (s.chain.blockByHash? block.prevHash).isSome = true)
    (hheight : l.head.height + 1 = block.height)
    (hfew : l.head.active.length < l.rules.pulseMinNodes) :
    ∃ head outcome, l.head.apply (l.context s l.view) block txs = .ok (head, outcome) ∧
      l.advance s block txs none true =
        .ok (outcome, { l with head := head, history := l.history.push block.height l.head }) := by
  obtain ⟨head, outcome, happly, -⟩ :=
    Registry.exists_apply_eq_ok (l.context s l.view) txs hheight
  refine ⟨head, outcome, happly, advance_eq_ok_iff.2 ⟨head, happly, fun _ => ?_, rfl⟩⟩
  refine verifyBlock_of_mined hmined false hparent fun _ => ?_
  rw [← Registry.height_of_apply happly]
  show ((HistoryView.of head l.history).withPrevious l.head).quorum? .pulse head.height false = none
  have hnone := Registry.pulse_eq_none_of_few hfew happly
  simpa [HistoryView.quorum?, HistoryView.quorums?, HistoryView.state?, quorumHeight,
    HistoryView.withPrevious, HistoryView.of, Quorums.get] using hnone

/-- Such a block is taken when it is added. -/
theorem addBlock_of_mined (l : LiveRegistry) (s : Surroundings) {block : Block}
    (txs : List Transaction) (hmined : block.IsMined)
    (hfork : HardFork.serviceNodes ≤ block.fork)
    (hparent : (s.chain.blockByHash? block.prevHash).isSome = true)
    (hheight : l.head.height + 1 = block.height)
    (hfew : l.head.active.length < l.rules.pulseMinNodes) :
    ∃ head outcome, l.head.apply (l.context s l.view) block txs = .ok (head, outcome) ∧
      (l.addBlock s block txs none).1 = .ok () ∧
      SamePast { l with head := head, history := l.history.push block.height l.head }
        (l.addBlock s block txs none).2 := by
  obtain ⟨head, outcome, happly, hadvance⟩ := advance_of_mined l s txs hmined hparent hheight hfew
  refine ⟨head, outcome, happly, ?_, ?_⟩
  · rw [addBlock_eq, if_neg (HardFork.not_lt.2 hfork), hadvance]
  · rw [addBlock_eq, if_neg (HardFork.not_lt.2 hfork), hadvance]
    exact .afterBlock _ s outcome block

end LiveRegistry

end StakeRegistry
