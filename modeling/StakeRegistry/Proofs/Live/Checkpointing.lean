import StakeRegistry.Proofs.Live.Voting
import StakeRegistry.Proofs.Quorum.Forming
import StakeRegistry.Proofs.Verification.Checkpoints

/-!
# Checkpoints rest on real quorums

Every registry that a recorded run keeps, as its head, among the recent ones or in the archive,
is what the block of its height has left behind, in full or with its quorums only
(`LiveRegistry.Filed`). So the quorum that is looked up for a checkpoint is one that a block of
the run has drawn, and a checkpoint that comes with a block which is taken has been signed by it.
Main statements:

* `Filed.advance`: a block that is applied keeps the files in order;
* `Recorded.checkpoints_signed`: a checkpoint that is taken lies eleven blocks above a block of the
  run whose quorum of twenty has signed it thirteen times; and the blocks that draw such a quorum
  are those that lie eleven below a multiple of four.
-/

set_option autoImplicit false

namespace StakeRegistry

/-! ## Where registries come from -/

/-- Where the registry of a height comes from: the block of that height has left it behind, in
full or with its quorums only, or it is one from before all blocks, without quorums. -/
inductive FromRecord (log : List Applied) (height : Nat) (r : Registry) : Prop where
  | first (bare : r.quorums = .none)
  | left {a : Applied} (recorded : a ∈ log) (height_eq : a.block.height = height)
      (same : r = a.after ∨ r = a.after.toQuorumsOnly)

section Records

variable {log : List Applied} {height : Nat} {r kept : Registry}

theorem FromRecord.append (h : FromRecord log height r) (later : List Applied) :
    FromRecord (log ++ later) height r := by
  cases h with
  | first bare => exact .first bare
  | left recorded height_eq same => exact .left (List.mem_append_left _ recorded) height_eq same

/-- What is archived comes from where the registry itself comes from. -/
theorem FromRecord.archived (h : FromRecord log height r)
    (hkept : History.archived? height r = some kept) : FromRecord log height kept := by
  cases h with
  | first bare => exact .first ((History.quorums_of_archived? hkept).trans bare)
  | left recorded height_eq same =>
      refine .left recorded height_eq ?_
      rcases History.eq_of_archived? hkept with rfl | rfl
      · exact same
      · rcases same with rfl | rfl <;> exact .inr rfl

/-- A registry with a quorum is what a block of the record has left behind. -/
theorem FromRecord.exists_block (h : FromRecord log height r) {kind : QuorumKind} {q : Quorum}
    (hq : r.quorums.get kind = some q) :
    ∃ a ∈ log, a.block.height = height ∧ a.after.quorums.get kind = some q ∧
      (r = a.after ∨ r = a.after.toQuorumsOnly) := by
  cases h with
  | first bare =>
      rw [bare] at hq
      cases kind <;> cases hq
  | @left a recorded height_eq same =>
      refine ⟨a, recorded, height_eq, ?_, same⟩
      rcases same with rfl | rfl <;> exact hq

end Records

/-- A quorum that is found without the old ones is that of a registry which is kept. -/
theorem HistoryView.exists_state_of_quorum? {view : HistoryView} {kind : QuorumKind} {height : Nat}
    {q : Quorum} (hq : view.quorum? kind height false = some q) :
    ∃ r, view.state? (quorumHeight kind height) = some r ∧ r.quorums.get kind = some q := by
  obtain ⟨quorums, hquorums, hget⟩ := Option.bind_eq_some_iff.1 hq
  unfold quorums? at hquorums
  split at hquorums
  · rename_i r hr
    cases hquorums
    exact ⟨r, hr, hget⟩
  · cases hquorums

namespace LiveRegistry

/-! ## The files of a run -/

/-- The head and the registries in both tiers come from the record. -/
structure Filed (l : LiveRegistry) (log : List Applied) : Prop where
  head : FromRecord log l.head.height l.head
  recent : ∀ k r, l.history.recent.get? k = some r → FromRecord log k r
  archive : ∀ k r, l.history.archive.get? k = some r → FromRecord log k r

section Runs

variable {l l' next : LiveRegistry} {log : List Applied} {s : Surroundings} {block : Block}
  {txs : List Transaction} {checkpoint : Option Checkpoint}

theorem Filed.of_samePast (h : Filed l log) (hpast : l.SamePast l') : Filed l' log := by
  refine ⟨?_, ?_, ?_⟩
  · rw [hpast.head]
    exact h.head
  · rw [hpast.history]
    exact h.recent
  · rw [hpast.history]
    exact h.archive

theorem filed_reset (l : LiveRegistry) (s : Surroundings) : Filed (l.reset s).2 [] := by
  have hcleared : Filed l.cleared [] := ⟨.first rfl, nofun, nofun⟩
  unfold reset
  split
  · exact hcleared
  · exact ⟨hcleared.head, hcleared.recent, hcleared.archive⟩

/-- A block that is applied keeps the files in order: the new head is on record, and what goes into
the archive was filed before. -/
theorem Filed.advance (h : Filed l log) {verify : Bool} {outcome : Outcome}
    (hadvance : l.advance s block txs checkpoint verify = .ok (outcome, next)) :
    Filed next (log ++ [l.applied s block txs next]) := by
  obtain ⟨head, happly, -, rfl⟩ := advance_eq_ok_iff.1 hadvance
  refine ⟨?_, fun k r hr => ?_, fun k r hr => ?_⟩
  · exact .left (List.mem_append_right _ (List.mem_singleton.2 rfl))
      (Registry.height_of_apply happly).symm (.inl rfl)
  · rcases History.recent_push_cases _ _ _ hr with ⟨rfl, rfl⟩ | ⟨-, hr⟩
    · exact h.head.append _
    · exact (h.recent k r hr).append _
  · rcases History.archive_push_cases _ _ _ hr with ⟨-, r', hr', hkept⟩ | hr
    · exact ((h.recent k r' hr').archived hkept).append _
    · exact (h.archive k r hr).append _

theorem Recorded.filed (h : Recorded l log) : Filed l log :=
  h.invariant filed_reset (fun h hadvance => h.advance hadvance) fun h hpast => h.of_samePast hpast

/-- Whatever is found in the past of a registry comes from the record. -/
theorem Filed.of_state? (h : Filed l log) {height : Nat} {r : Registry}
    (hr : l.view.state? height = some r) : FromRecord log height r := by
  unfold HistoryView.state? view HistoryView.of at hr
  dsimp only at hr
  split at hr
  · rename_i hheight
    cases hr
    exact hheight ▸ h.head
  · rcases Option.or_eq_some_iff.1 hr with hr | ⟨-, hr⟩
    · exact h.recent height r hr
    · exact h.archive height r hr

/-- While a block is verified, the past is that of the registry before it and the new head. -/
theorem state?_withPrevious {head : Registry} {height : Nat} {r : Registry}
    (hr : ((HistoryView.of head l.history).withPrevious l.head).state? height = some r) :
    (head.height = height ∧ r = head) ∨ l.view.state? height = some r := by
  unfold HistoryView.state? HistoryView.withPrevious HistoryView.of at hr
  dsimp only at hr
  split at hr
  · exact .inl ⟨‹_›, (Option.some.inj hr).symm⟩
  · right
    unfold HistoryView.state? view HistoryView.of
    dsimp only
    by_cases hheight : l.head.height = height
    · simpa [hheight, Option.filter] using hr
    · simpa [hheight, Option.filter] using hr

/-- The block that is added when it is taken. -/
theorem added_of_advance {outcome : Outcome} (hfork : ¬ block.fork < HardFork.serviceNodes)
    (hadvance : l.advance s block txs checkpoint true = .ok (outcome, next)) :
    l.added s block txs checkpoint = [l.applied s block txs next] := by
  unfold added
  rw [if_neg hfork, hadvance]

end Runs

/-! ## What a checkpoint rests on -/

/-- The blocks at which checkpointing quorums are drawn are those that checkpoints look for: a
multiple of four, less eleven. -/
theorem drawn_iff_looked_for {height : Nat} (hpos : 1 ≤ height) :
    (height + reorgSafetyBuffer) % checkpointInterval = 0 ↔ ∃ c, 4 ∣ c ∧ height = c - 11 := by
  simp only [reorgSafetyBuffer, checkpointInterval]
  constructor
  · intro h
    exact ⟨height + 11, Nat.dvd_of_mod_eq_zero h, by omega⟩
  · rintro ⟨c, ⟨k, rfl⟩, hheight⟩
    omega

/-- A registry was found at a height when a block was taken: it was kept already, or it is the new
head. -/
def FoundAt (l after : LiveRegistry) (height : Nat) (r : Registry) : Prop :=
  l.view.state? height = some r ∨ (after.head.height = height ∧ r = after.head)

end LiveRegistry

/-! ## Twenty nodes on the fake chain -/

theorem pulseQuorum_of_unled (minNodes : Nat) (fork : HardFork) (active : NodeList)
    (entropy : List Hash) (round : Nat) :
    pulseQuorum minNodes 0 fork active entropy round = ⟨[], []⟩ := by
  unfold pulseQuorum
  split
  · rfl
  · rw [if_pos (.inr (.inl rfl))]

/-- A block that nobody is paid for leaves no Pulse quorum behind. -/
theorem Registry.pulse_eq_none_of_unled {r next : Registry} {ctx : Context} {block : Block}
    {txs : List Transaction} {outcome : Outcome} (hwinner : block.minerTx.winner? = none)
    (h : r.apply ctx block txs = .ok (next, outcome)) : next.quorums.pulse = none := by
  refine Option.eq_none_iff_forall_ne_some.2 fun q hq => ?_
  obtain ⟨-, hcomplete, rfl⟩ := (pulse_of_apply_iff h).1 hq
  rw [hwinner, Option.getD_none, quorumProducing, pulseQuorum_of_unled] at hcomplete
  cases hcomplete

/-- The registrations of as many nodes as sit in a checkpointing quorum. -/
def twentyNodes : List Transaction := (List.range 20).map fun i => .registering (i + 1)

theorem kind_of_mem_twentyNodes {tx : Transaction} (h : tx ∈ twentyNodes) :
    tx.kind ≠ .stateChange := by
  obtain ⟨i, -, rfl⟩ := List.mem_map.1 h
  rintro ⟨⟩

/-- Twenty nodes, after the first block. -/
def Registry.twenty : Registry := (Registry.new 0).settled .trusting (.plain 1 .v21) twentyNodes

theorem length_active_twenty : Registry.twenty.active.length = 20 := by decide +kernel

/-- A checkpoint that is signed by the first thirteen members of a quorum. -/
def Checkpoint.signedByFirst (height : Nat) : Checkpoint :=
  ⟨height, 0, (List.range checkpointVotes).map fun i => ⟨i, 0⟩⟩

/-- Where signatures are trusted, every full quorum has signed it. -/
theorem signedBy_signedByFirst {q : Quorum} {fork : HardFork} {height : Nat}
    (hinterval : height % checkpointInterval = 0)
    (hfull : q.validators.length = checkpointQuorumSize) :
    (Checkpoint.signedByFirst height).SignedBy .trusting fork q := by
  refine ⟨fun _ => hinterval, by simp [Checkpoint.signedByFirst], ?_, fun signed hsigned => ?_⟩
  · simp only [Checkpoint.signedByFirst, List.map_map, Function.comp_def, List.map_id']
    exact List.pairwise_lt_range
  · obtain ⟨i, hi, rfl⟩ := List.mem_map.1 hsigned
    have hlow : i < q.validators.length := by
      rw [hfull]
      exact Nat.lt_trans (List.mem_range.1 hi) (by decide)
    exact ⟨q.validators[i], List.getElem?_eq_getElem hlow, rfl⟩

namespace LiveRegistry

/-- A run that has recorded the first block, and the quorum that it has drawn. -/
theorem exists_recorded_twenty : ∃ l a, Recorded l [a] ∧ a.block = .plain 1 .v21 ∧
    l.head.height = 1 ∧ ∃ q, l.head.quorums.checkpointing = some q ∧
      q.validators.length = checkpointQuorumSize := by
  let l := ((start .bridged ∅ []).init .trusting).2
  have hl : Recorded l [] := .init rfl
  obtain ⟨next, outcome, happly, hadvance⟩ := advance_of_mined l .trusting twentyNodes
    (Block.isMined_plain 1 .v21) rfl (show l.head.height + 1 = 1 from rfl) (by decide)
  have hnext : Recorded (l.addBlock .trusting (.plain 1 .v21) twentyNodes none).2 _ := .add hl
  rw [added_of_advance (by decide) hadvance] at hnext
  have hhead : (l.addBlock .trusting (.plain 1 .v21) twentyNodes none).2.head = next := by
    rw [addBlock_eq, if_neg (by decide), hadvance]
    exact (SamePast.afterBlock _ .trusting outcome _).head
  have hactive : next.active.length = checkpointQuorumSize := by
    have hsame : Registry.twenty.SameButQuorums next :=
      sameButQuorums_of_apply rfl (fun _ => kind_of_mem_twentyNodes) (.refl _) happly
    rw [hsame.active, length_active_twenty]
    rfl
  refine ⟨_, _, hnext, rfl, ?_, ?_⟩
  · rw [hhead]
    exact Registry.height_of_apply happly
  · rw [hhead]
    exact Registry.checkpointing_of_apply happly (by decide) rfl (Nat.le_of_eq hactive.symm)

/-- A second block is taken with a checkpoint that the quorum of the first one has signed. -/
theorem addBlock_signedByFirst {l : LiveRegistry} (hheight : l.head.height = 1) {q : Quorum}
    (hq : l.head.quorums.checkpointing = some q)
    (hfull : q.validators.length = checkpointQuorumSize) :
    (l.addBlock .trusting (.plain 2 .v21) [] (some (.signedByFirst 12))).1 = .ok () := by
  obtain ⟨next, outcome, happly, -⟩ := Registry.exists_apply_eq_ok (l.context .trusting l.view) []
    (show l.head.height + 1 = (Block.plain 2 .v21).height by rw [hheight]; rfl)
  have hnext : next.height = 2 := Registry.height_of_apply happly
  have hquorum : ((HistoryView.of next l.history).withPrevious l.head).quorum? .checkpointing 12
      false = some q := by
    simp [HistoryView.quorum?, HistoryView.quorums?, HistoryView.state?, HistoryView.withPrevious,
      HistoryView.of, quorumHeight, reorgSafetyBuffer, Option.filter, hnext, hheight, Quorums.get,
      hq]
  have hverified : verifyBlock (l.context .trusting
      ((HistoryView.of next l.history).withPrevious l.head)) (.plain 2 .v21) false
      (some (.signedByFirst 12)) = .ok () := by
    refine (verifyBlock_checkpoint_iff (by decide)).2
      ⟨verifyBlockCheckpoint_eq_ok_iff.2 ⟨q, hquorum, signedBy_signedByFirst rfl hfull⟩, ?_⟩
    refine verifyBlock_of_mined (Block.isMined_plain 2 .v21) false rfl fun _ => ?_
    have hnone := Registry.pulse_eq_none_of_unled rfl happly
    simp [context, HistoryView.quorum?, HistoryView.quorums?, HistoryView.state?,
      HistoryView.withPrevious, HistoryView.of, quorumHeight, hnext, Quorums.get, hnone,
      Block.plain]
  rw [addBlock_eq, if_neg (by decide),
    advance_eq_ok_iff.2 ⟨next, happly, fun _ => hverified, rfl⟩]

/-! ## Checkpoints that are taken -/

/-- A checkpoint that comes with a block which is taken, from the fork on at which checkpoints are
enforced, is at a multiple of four. Eleven blocks below it the registry is kept, with the
checkpointing quorum that the block there has drawn: twenty different nodes, of which at least
thirteen have signed the checkpoint. And every block of the run draws such a quorum exactly if it
lies where checkpoints look for one. -/
theorem Recorded.checkpoints_signed {l : LiveRegistry} {log : List Applied} (h : Recorded l log) :
    (∀ {s : Surroundings} {block : Block} {txs : List Transaction} {checkpoint : Checkpoint},
      (l.addBlock s block txs (some checkpoint)).1 = .ok () →
      HardFork.enforceCheckpoints ≤ block.fork →
        4 ∣ checkpoint.height ∧
        ∃ past ∈ log ++ l.added s block txs (some checkpoint), ∃ outcome,
          past.before.apply past.ctx past.block past.txs = .ok (past.after, outcome) ∧
          past.block.height + 11 = checkpoint.height ∧
          ∃ r q, l.FoundAt (l.addBlock s block txs (some checkpoint)).2 (checkpoint.height - 11) r ∧
            (r = past.after ∨ r = past.after.toQuorumsOnly) ∧
            r.quorums.checkpointing = some q ∧ past.after.quorums.checkpointing = some q ∧
            q.validators.length = 20 ∧ q.validators.Nodup ∧
            ∃ signers : List PublicKey, signers.Nodup ∧ 13 ≤ signers.length ∧
              ∀ signer ∈ signers, signer ∈ q.validators ∧ ∃ signed ∈ checkpoint.signatures,
                q.validators[signed.voterIndex]? = some signer ∧
                  s.suite.verify checkpoint.blockHash signer signed.signature = true) ∧
    ∀ a ∈ log, HardFork.checkpointing ≤ a.block.fork → 1 ≤ a.block.height →
      (a.after.quorums.checkpointing.isSome = true ↔ ∃ c, 4 ∣ c ∧ a.block.height = c - 11) := by
  refine ⟨fun {s block txs checkpoint} htaken hfork => ?_, fun a ha hfork hpos => ?_⟩
  · have hnodes : ¬ block.fork < HardFork.serviceNodes :=
      Nat.not_lt.2 (Nat.le_trans (by decide) (HardFork.le_def.1 hfork))
    obtain ⟨outcome, next, hadvance, hafter⟩ := advance_of_addBlock hnodes htaken
    rw [added_of_advance hnodes hadvance]
    have hsound := (h.onRecord.advance hadvance).sound
    have hnext := h.filed.advance hadvance
    obtain ⟨head, happly, hverify, hmoved⟩ := advance_eq_ok_iff.1 hadvance
    have hhead : next.head = head := by rw [hmoved]
    obtain ⟨hchecked, -⟩ := (verifyBlock_checkpoint_iff hfork).1 (hverify rfl)
    obtain ⟨q, hq, hsigned⟩ := verifyBlockCheckpoint_eq_ok_iff.1 hchecked
    -- The quorum is that of a registry which is kept, and so of a block on record.
    obtain ⟨r, hr, hrq⟩ : ∃ r, ((HistoryView.of head l.history).withPrevious l.head).state?
        (checkpoint.height - 11) = some r ∧ r.quorums.checkpointing = some q :=
      HistoryView.exists_state_of_quorum? hq
    rw [← hhead] at hr
    obtain ⟨hfrom, hfound⟩ : FromRecord (log ++ [l.applied s block txs next])
        (checkpoint.height - 11) r ∧
        l.FoundAt (l.addBlock s block txs (some checkpoint)).2 (checkpoint.height - 11) r := by
      rcases state?_withPrevious hr with ⟨hheight, rfl⟩ | hkept
      · exact ⟨hheight ▸ hnext.head, .inr ⟨hafter.head ▸ hheight, hafter.head.symm⟩⟩
      · exact ⟨(h.filed.of_state? hkept).append _, .inl hkept⟩
    obtain ⟨past, hpast, hheight, hpastq, hsame⟩ :=
      hfrom.exists_block (show r.quorums.get .checkpointing = some q from hrq)
    obtain ⟨outcome', hgenerated⟩ := hsound.applied hpast
    have hbefore := Registry.height_before_apply hgenerated
    have hmembers := (Registry.quorumsFormed_of_apply hgenerated).checkpointing q hpastq
    refine ⟨Nat.dvd_of_mod_eq_zero (hsigned.onInterval hfork), past, hpast, outcome', hgenerated,
      by omega, r, q, hfound, hsame, hrq, hpastq,
      hmembers.validators_length.resolve_left hsigned.validators_ne_nil, hmembers.distinct,
      hsigned.exists_signers hmembers.distinct⟩
  · obtain ⟨outcome, happly⟩ := h.onRecord.sound.applied ha
    rw [(Registry.quorumsFormed_of_apply happly).checkpointing_due, and_iff_right hfork]
    exact drawn_iff_looked_for hpos

/-- Twenty nodes are registered in the first block, and the second one brings the checkpoint at
height twelve, which the quorum that was drawn at height one has signed. -/
theorem Recorded.checkpoints_signed_at_twelve :
    ∃ l log, Recorded l log ∧
      (l.addBlock .trusting (.plain 2 .v21) [] (some (.signedByFirst 12))).1 = .ok () ∧
      (∃ past ∈ log ++ l.added .trusting (.plain 2 .v21) [] (some (.signedByFirst 12)),
        past.block.height + 11 = 12 ∧ ∃ q, past.after.quorums.checkpointing = some q ∧
          q.validators.length = 20) ∧
      ∃ a ∈ log, a.block.height = 1 ∧
        (a.after.quorums.checkpointing.isSome = true ↔ ∃ c, 4 ∣ c ∧ a.block.height = c - 11) := by
  obtain ⟨l, a, hl, hblock, hheight, q, hq, hfull⟩ := exists_recorded_twenty
  have htaken := addBlock_signedByFirst hheight hq hfull
  obtain ⟨hsigned, hdrawn⟩ := hl.checkpoints_signed
  obtain ⟨-, past, hpast, -, -, hbelow, -, q', -, -, -, hq', htwenty, -⟩ :=
    hsigned htaken (by decide)
  have ha : a ∈ [a] := List.mem_singleton.2 rfl
  have hdrawn := hdrawn a ha
  rw [hblock] at hdrawn
  refine ⟨l, [a], hl, htaken, ⟨past, hpast, hbelow, q', hq', htwenty⟩, a, ha, ?_⟩
  rw [hblock]
  exact ⟨rfl, hdrawn (by decide) (by decide)⟩

end LiveRegistry

end StakeRegistry
