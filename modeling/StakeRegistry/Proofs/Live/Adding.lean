import StakeRegistry.Proofs.Live.Effects
import StakeRegistry.Proofs.Quorum.Ancestry
import StakeRegistry.Proofs.Quorum.Forming
import StakeRegistry.Proofs.Verification.Production
import StakeRegistry.Proofs.Verification.Pulse

/-!
# Adding a block is all or nothing

The participation of a Pulse quorum is noted after the new head is in place, and noting it can
fail. It never does for a block that was verified: such a block has the Pulse quorum of its
height on record, the quorum is that of the new head, and a head keeps complete quorums only.
Main statements:

* `notePulse_of_advance`: after a verified block, its participation can be noted;
* `addBlock_all_or_nothing`: a block that is refused changes nothing.
-/

set_option autoImplicit false

namespace StakeRegistry

namespace LiveRegistry

/-- Participation can be noted when the head has a complete Pulse quorum for the block. -/
theorem notePulse_eq_ok {l : LiveRegistry} {s : Surroundings} {block : Block}
    (hheight : l.head.height = block.height)
    (hquorum : block.hasPulseComponents = true →
      ∃ q, l.head.quorums.pulse = some q ∧ q.isCompletePulse = true) :
    (l.notePulse s block).1 = .ok () := by
  unfold notePulse
  split
  case isFalse => rfl
  case isTrue hfresh =>
    have hpulse : block.hasPulseComponents = true := by
      have := Bool.and_eq_true_iff.1 hfresh
      exact this.1
    obtain ⟨q, hq, hcomplete⟩ := hquorum hpulse
    -- The quorum of the block's height is looked up in the head itself.
    have hlookup : l.view.quorum? .pulse block.height false = some q := by
      simp [HistoryView.quorum?, HistoryView.quorums?, HistoryView.state?, quorumHeight, view,
        HistoryView.of, hheight, Quorums.get, hq]
    have hsize : q.validators.length = pulseValidators := by
      simp only [Quorum.isCompletePulse, Bool.and_eq_true, beq_iff_eq] at hcomplete
      exact hcomplete.2
    rw [hlookup]
    simp [hsize, pulseValidators]

/-- A block is verified with the quorums that it forms: the view begins with the new head. -/
theorem pulse_quorum?_withPrevious {head previous : Registry} (history : History) {height : Nat}
    (hheight : head.height = height) :
    ((HistoryView.of head history).withPrevious previous).quorum? .pulse height false =
      head.quorums.pulse := by
  simp [HistoryView.quorum?, HistoryView.quorums?, HistoryView.state?, quorumHeight,
    HistoryView.withPrevious, HistoryView.of, hheight, Quorums.get]

/-- The Pulse quorum of a verified block is that of the head after it, and complete. -/
theorem completePulse_of_advance {l next : LiveRegistry} {s : Surroundings} {block : Block}
    {txs : List Transaction} {checkpoint : Option Checkpoint} {outcome : Outcome}
    (hfork : HardFork.serviceNodes ≤ block.fork)
    (h : l.advance s block txs checkpoint true = .ok (outcome, next))
    (hpulse : block.hasPulseComponents = true) :
    ∃ q, next.head.quorums.pulse = some q ∧ q.isCompletePulse = true := by
  obtain ⟨head, happly, hverify, rfl⟩ := advance_eq_ok_iff.1 h
  obtain ⟨q, hq⟩ := exists_quorum_of_verifyBlock hfork (hverify rfl) hpulse
  have hhead : head.quorums.pulse = some q :=
    (pulse_quorum?_withPrevious _ (Registry.height_of_apply happly)).symm.trans hq
  exact ⟨q, hhead, Registry.pulseComplete_of_apply happly q hhead⟩

/-- After a verified block, how its Pulse quorum took part can be noted. -/
theorem notePulse_of_advance {l next : LiveRegistry} {s : Surroundings} {block : Block}
    {txs : List Transaction} {checkpoint : Option Checkpoint} {outcome : Outcome}
    (hfork : HardFork.serviceNodes ≤ block.fork)
    (h : l.advance s block txs checkpoint true = .ok (outcome, next)) :
    ((next.takeEffects s outcome).notePulse s block).1 = .ok () := by
  have hpast : next.SamePast (next.takeEffects s outcome) := .takeEffects next s outcome
  refine notePulse_eq_ok ?_ fun hpulse => ?_
  · obtain ⟨head, happly, -, rfl⟩ := advance_eq_ok_iff.1 h
    rw [hpast.head]
    exact Registry.height_of_apply happly
  · rw [hpast.head]
    exact completePulse_of_advance hfork h hpulse

/-- What adding a block comes to: nothing before the service-node fork, a refusal that changes
nothing, or the new head with the effects of the block. -/
theorem addBlock_eq {l : LiveRegistry} {s : Surroundings} {block : Block}
    {txs : List Transaction} {checkpoint : Option Checkpoint} :
    l.addBlock s block txs checkpoint =
      if block.fork < HardFork.serviceNodes then (.ok (), l)
      else match l.advance s block txs checkpoint true with
      | .error e => (.error e, l)
      | .ok (outcome, next) =>
          (.ok (), ((next.takeEffects s outcome).notePulse s block).2.forgetExpired) := by
  unfold addBlock
  split
  · rfl
  · rename_i hfork
    cases hadvance : l.advance s block txs checkpoint true with
    | error e => rfl
    | ok p =>
        obtain ⟨outcome, next⟩ := p
        have hnoted := notePulse_of_advance (HardFork.not_lt.1 hfork) hadvance
        dsimp only
        generalize (next.takeEffects s outcome).notePulse s block = noted at hnoted ⊢
        obtain ⟨answer, l'⟩ := noted
        cases hnoted
        rfl

/-- A block that is offered leaves the registry alone, or moves its head on. -/
theorem addBlock_cases (l : LiveRegistry) (s : Surroundings) (block : Block)
    (txs : List Transaction) (checkpoint : Option Checkpoint) :
    (l.addBlock s block txs checkpoint).2 = l ∨
      ∃ outcome next, l.advance s block txs checkpoint true = .ok (outcome, next) ∧
        next.SamePast (l.addBlock s block txs checkpoint).2 := by
  rw [addBlock_eq]
  split
  · exact Or.inl rfl
  · cases hadvance : l.advance s block txs checkpoint true with
    | error e => exact Or.inl rfl
    | ok p => exact Or.inr ⟨p.1, p.2, rfl, .afterBlock p.2 s p.1 block⟩

/-- A block that is taken at the service-node fork or later moves the head on, and after that its
outcome takes effect. -/
theorem afterBlock_of_addBlock {l l' : LiveRegistry} {s : Surroundings} {block : Block}
    {txs : List Transaction} {checkpoint : Option Checkpoint}
    (hfork : ¬ block.fork < HardFork.serviceNodes)
    (hadd : l.addBlock s block txs checkpoint = (.ok (), l')) :
    ∃ outcome next, l.advance s block txs checkpoint true = .ok (outcome, next) ∧
      l' = ((next.takeEffects s outcome).notePulse s block).2.forgetExpired := by
  rw [addBlock_eq, if_neg hfork] at hadd
  cases hadvance : l.advance s block txs checkpoint true with
  | error e =>
      rw [hadvance] at hadd
      cases hadd
  | ok p =>
      rw [hadvance] at hadd
      cases hadd
      exact ⟨p.1, p.2, rfl, rfl⟩

theorem advance_of_addBlock {l : LiveRegistry} {s : Surroundings} {block : Block}
    {txs : List Transaction} {checkpoint : Option Checkpoint}
    (hfork : ¬ block.fork < HardFork.serviceNodes)
    (htaken : (l.addBlock s block txs checkpoint).1 = .ok ()) :
    ∃ outcome next, l.advance s block txs checkpoint true = .ok (outcome, next) ∧
      next.SamePast (l.addBlock s block txs checkpoint).2 := by
  have hadd : l.addBlock s block txs checkpoint =
      (.ok (), (l.addBlock s block txs checkpoint).2) := Prod.ext htaken rfl
  obtain ⟨outcome, next, hadvance, hafter⟩ := afterBlock_of_addBlock hfork hadd
  refine ⟨outcome, next, hadvance, ?_⟩
  rw [hafter]
  exact .afterBlock next s outcome block

theorem settings_addBlock (l : LiveRegistry) (s : Surroundings) (block : Block)
    (txs : List Transaction) (checkpoint : Option Checkpoint) :
    (l.addBlock s block txs checkpoint).2.settings = l.settings := by
  obtain hsame | ⟨outcome, next, hadvance, hpast⟩ := l.addBlock_cases s block txs checkpoint
  · rw [hsame]
  · obtain ⟨head, -, -, rfl⟩ := advance_eq_ok_iff.1 hadvance
    rw [hpast.settings]

/-- Adding a block is all or nothing: a block that is refused leaves the live registry as it
was, and the participation of a block that was verified can always be noted. -/
theorem addBlock_all_or_nothing (l : LiveRegistry) (s : Surroundings) (block : Block)
    (txs : List Transaction) (checkpoint : Option Checkpoint) :
    (∀ e, (l.addBlock s block txs checkpoint).1 = .error e →
      (l.addBlock s block txs checkpoint).2 = l) ∧
    (HardFork.serviceNodes ≤ block.fork → ∀ outcome next,
      l.advance s block txs checkpoint true = .ok (outcome, next) →
      ((next.takeEffects s outcome).notePulse s block).1 = .ok ()) := by
  constructor
  · intro e h
    rw [addBlock_eq] at h ⊢
    split at h
    · cases h
    · rename_i hfork
      rw [if_neg hfork]
      cases hadvance : l.advance s block txs checkpoint true with
      | error e => rfl
      | ok p =>
          rw [hadvance] at h
          cases h
  · intro hfork outcome next h
    exact notePulse_of_advance hfork h

end LiveRegistry

/-- A block on top of a plain chain that the first seven validators of the twelve nodes' quorum
have sealed. -/
def Block.ofTwelve : Block :=
  { Block.declaring 31 .v21 Registry.twelve.leader.key with
    pulse := ⟨0, 0b1111111, 0⟩
    signatures := (List.range 7).map fun i => ⟨i, default⟩ }

theorem Block.sealedBy_ofTwelve {q : Quorum} (hsize : q.validators.length = pulseValidators) :
    ofTwelve.SealedBy .trusting q := by
  have hsealed : ofTwelve.SealedBy .trusting ⟨(List.range 11).map .writing, []⟩ :=
    verifyPulseSignatures_eq_ok_iff.1 rfl
  refine ⟨hsealed.count, hsealed.low, hsealed.named, hsealed.order.ascending, fun s hs => ?_⟩
  have hvoter : s.voterIndex < q.validators.length := by
    rw [hsize]
    exact hsealed.low s hs
  exact ⟨_, List.getElem?_eq_getElem hvoter, rfl⟩

/-- The plain chain when that block has come on top of it. -/
def Surroundings.ofTwelve : Surroundings :=
  ⟨.trusting, { ChainReader.plain .v21 with currentHeight := 32 }, 0, none, none, 0⟩

theorem Surroundings.length_pulseEntropy_ofTwelve :
    (pulseEntropy ofTwelve.chain .trusting (.writing 30) 0).length = pulseQuorumSize := by
  have hshares : (ChainReader.plain .v21).SharesAncestry ofTwelve.chain fun _ => True :=
    ⟨fun _ _ => rfl, fun _ _ _ _ => trivial⟩
  rw [hshares.pulseEntropy_eq .trusting trivial]
  exact length_pulseEntropy_plain 30 (by simp)

namespace LiveRegistry

/-- The twelve nodes on the fake chain. -/
def ofTwelve : LiveRegistry :=
  { start ⟨.fakechain, 0, false, [⟨.v21, 0⟩], none⟩ ∅ [] with head := .twelve }

/-- On top of the twelve nodes a block out of turn changes nothing, and the block that their quorum
has just sealed is verified and its participation noted. -/
theorem addBlock_all_or_nothing_of_twelve :
    (ofTwelve.addBlock .ofTwelve (.plain 5 .v21) [] none).2 = ofTwelve ∧
      Block.ofTwelve.hasPulseComponents = true ∧ isFresh .ofTwelve .ofTwelve = true ∧
      ∃ outcome next, ofTwelve.advance .ofTwelve .ofTwelve [] none true = .ok (outcome, next) ∧
        ((next.takeEffects .ofTwelve outcome).notePulse .ofTwelve .ofTwelve).1 = .ok () := by
  have hfork : HardFork.pulse ≤ Block.ofTwelve.fork := by decide
  obtain ⟨head, outcome, happly, -⟩ :=
    Registry.exists_apply_eq_ok (ofTwelve.context .ofTwelve ofTwelve.view) []
      (show Registry.twelve.height + 1 = Block.ofTwelve.height from rfl)
  have hcomplete := Registry.isCompletePulse_twelve hfork Surroundings.length_pulseEntropy_ofTwelve
  obtain ⟨q, hq⟩ : ∃ q, head.quorums.pulse = some q :=
    ⟨_, (Registry.pulse_of_apply_iff happly).2 ⟨hfork, hcomplete, rfl⟩⟩
  have hsize : q.validators.length = pulseValidators := by
    have hkept := Registry.pulseComplete_of_apply happly q hq
    simp only [Quorum.isCompletePulse, Bool.and_eq_true, beq_iff_eq] at hkept
    exact hkept.2
  let ctx : Context := ofTwelve.context .ofTwelve
    ((HistoryView.of head ofTwelve.history).withPrevious ofTwelve.head)
  have hproduced : Block.ofTwelve.ByPulse ctx (.plain 30 .v21) := by
    refine ⟨hfork, rfl, ⟨q, ?_, Block.sealedBy_ofTwelve hsize⟩, fun hoff => ?_⟩
    case refine_2 => exact Bool.noConfusion (show true = false from hoff)
    exact (pulse_quorum?_withPrevious _ (Registry.height_of_apply happly)).trans hq
  have hknown : Surroundings.ofTwelve.chain.blockByHash? (.writing 30) =
      some (.plain 30 .v21) := by decide +kernel
  have hverify : verifyBlock ctx .ofTwelve false none = .ok () := by
    unfold verifyBlock
    rw [(verifyProduction_eq_ok_iff (by decide) fun _ => ⟨hknown, by decide⟩).2 (.inl hproduced)]
    rfl
  have hadvance : ofTwelve.advance .ofTwelve .ofTwelve [] none true = .ok (outcome, _) :=
    advance_eq_ok_iff.2 ⟨head, happly, fun _ => hverify, rfl⟩
  exact ⟨(addBlock_all_or_nothing ofTwelve .ofTwelve (.plain 5 .v21) [] none).1 _ rfl, rfl, rfl,
    outcome, _, hadvance,
    (addBlock_all_or_nothing ofTwelve .ofTwelve .ofTwelve [] none).2 (by decide) _ _ hadvance⟩

end LiveRegistry

end StakeRegistry
