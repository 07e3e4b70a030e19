import StakeRegistry.Proofs.Verification.Signatures
import StakeRegistry.Proofs.Verification.Votes
import StakeRegistry.Verification.Block

/-!
# What a checkpoint amounts to

A checkpoint that was verified against a quorum has been signed by it
(`Checkpoint.SignedBy`): by thirteen members, each at a position of its own. If no member sits
in the quorum twice, the signers are as many different nodes (`Checkpoint.SignedBy.exists_signers`).
A block that brings a checkpoint verifies exactly if the quorum that is looked up for the
checkpoint has signed it, and the block would verify without it (`verifyBlock_checkpoint_iff`).
-/

set_option autoImplicit false

namespace StakeRegistry

/-- A quorum has signed a checkpoint that comes with a block of a fork. -/
structure Checkpoint.SignedBy (suite : CryptoSuite) (fork : HardFork) (checkpoint : Checkpoint)
    (q : Quorum) : Prop where
  onInterval : HardFork.enforceCheckpoints ≤ fork → checkpoint.height % checkpointInterval = 0
  enough : checkpointVotes ≤ checkpoint.signatures.length
  order : SignedInOrder suite checkpoint.blockHash q.validators checkpoint.signatures

section Checkpoints

variable {suite : CryptoSuite} {fork : HardFork} {checkpoint : Checkpoint} {q : Quorum}

/-- A checkpoint verifies against a quorum exactly if the quorum has signed it. -/
theorem verifyCheckpoint_eq_ok_iff :
    verifyCheckpoint suite fork checkpoint q = .ok () ↔ checkpoint.SignedBy suite fork q := by
  unfold verifyCheckpoint
  constructor
  · intro h
    split at h
    · cases h
    rename_i hinterval
    split at h
    · cases h
    rename_i henough
    refine ⟨fun hfork => ?_, Nat.not_lt.1 henough, (verifySignatures_eq_ok_iff.1 h).2⟩
    by_contra hoff
    exact hinterval ⟨hfork, hoff⟩
  · rintro ⟨hinterval, henough, horder⟩
    rw [if_neg fun hoff => hoff.2 (hinterval hoff.1), if_neg (Nat.not_lt.2 henough)]
    exact verifySignatures_eq_ok_iff.2 ⟨by simp, horder⟩

/-- The signers of a checkpoint are thirteen different members of the quorum or more, and each
has signed its block. -/
theorem Checkpoint.SignedBy.exists_signers (h : checkpoint.SignedBy suite fork q)
    (hdistinct : q.validators.Nodup) :
    ∃ signers : List PublicKey, signers.Nodup ∧ checkpointVotes ≤ signers.length ∧
      ∀ signer ∈ signers, signer ∈ q.validators ∧ ∃ s ∈ checkpoint.signatures,
        q.validators[s.voterIndex]? = some signer ∧
          suite.verify checkpoint.blockHash signer s.signature = true := by
  obtain ⟨signers, hnodup, hlength, hsigners⟩ :=
    exists_members_at hdistinct h.order.nodup h.order.signed
  exact ⟨signers, hnodup, hlength ▸ h.enough, hsigners⟩

/-- A quorum that has signed a checkpoint is not empty. -/
theorem Checkpoint.SignedBy.validators_ne_nil (h : checkpoint.SignedBy suite fork q) :
    q.validators ≠ [] := by
  have hsome : 0 < checkpoint.signatures.length := Nat.lt_of_lt_of_le (by decide) h.enough
  obtain ⟨voter, hvoter, -⟩ := h.order.signed _ (List.getElem_mem hsome)
  exact List.ne_nil_of_mem (List.mem_of_getElem? hvoter)

end Checkpoints

section Blocks

variable {ctx : Context} {block : Block} {checkpoint : Checkpoint}

/-- On the canonical chain a checkpoint needs the quorum that is looked up for its height. -/
theorem verifyBlockCheckpoint_eq_ok_iff :
    verifyBlockCheckpoint ctx block false checkpoint = .ok () ↔
      ∃ q, ctx.view.quorum? .checkpointing checkpoint.height false = some q ∧
        checkpoint.SignedBy ctx.suite block.fork q := by
  unfold verifyBlockCheckpoint
  cases ctx.view.quorum? .checkpointing checkpoint.height false with
  | none => simp
  | some q =>
      simp only [Bool.false_eq_true, if_false, List.any_cons, List.any_nil, Bool.or_false,
        Option.some.injEq, exists_eq_left', ← verifyCheckpoint_eq_ok_iff]
      cases verifyCheckpoint ctx.suite block.fork checkpoint q with
      | ok _ => simp [Except.isOk, Except.toBool]
      | error e => simp [Except.isOk, Except.toBool]

/-- Where checkpoints are enforced, a block verifies with a checkpoint exactly if the checkpoint
does and the block would without it. -/
theorem verifyBlock_checkpoint_iff {isAlt : Bool}
    (hfork : HardFork.enforceCheckpoints ≤ block.fork) :
    verifyBlock ctx block isAlt (some checkpoint) = .ok () ↔
      verifyBlockCheckpoint ctx block isAlt checkpoint = .ok () ∧
        verifyBlock ctx block isAlt none = .ok () := by
  have hnodes : ¬ block.fork < HardFork.serviceNodes :=
    Nat.not_lt.2 (Nat.le_trans (by decide) (HardFork.le_def.1 hfork))
  unfold verifyBlock
  dsimp only
  rw [if_neg hnodes, if_neg hnodes, if_pos hfork]
  cases verifyBlockCheckpoint ctx block isAlt checkpoint with
  | ok _ => exact (and_iff_right rfl).symm
  | error e => exact ⟨nofun, fun h => nomatch h.1⟩

end Blocks

end StakeRegistry
