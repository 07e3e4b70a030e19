import StakeRegistry.Proofs.Transition.Accounting
import StakeRegistry.Proofs.Transition.Quorums

/-!
# When a Pulse quorum forms

A round draws a producer from the active nodes, and eleven validators from those that are left.
That needs a leader, entropy for twelve draws and enough nodes, and nothing else: with these the
quorum is complete in every round (`isCompletePulse_pulseQuorum_iff`). A block keeps just this
quorum (`Registry.pulse_of_apply_iff`).
-/

set_option autoImplicit false

namespace StakeRegistry

/-! ## The producer -/

namespace NodeList

/-- Without the node at a position, nodes of different keys are those with other keys. -/
theorem eraseIdx_eq_filter {nodes : NodeList} (hdistinct : nodes.keys.Nodup) {i : Nat}
    {n : PublicKey × NodeInfo} (hn : nodes[i]? = some n) :
    nodes.eraseIdx i = nodes.filter fun m => m.1 != n.1 := by
  induction nodes generalizing i with
  | nil => rfl
  | cons m nodes ih =>
      obtain ⟨hnew, hdistinct⟩ := List.nodup_cons.1 hdistinct
      cases i with
      | zero =>
          obtain rfl : m = n := Option.some.inj hn
          have hothers : nodes.filter (fun other => other.1 != m.1) = nodes := by
            refine List.filter_eq_self.2 fun other hmem => ?_
            rw [bne_iff_ne]
            exact fun hsame => hnew (List.mem_map.2 ⟨other, hmem, hsame⟩)
          rw [List.filter_cons_of_neg (by simp), hothers, List.eraseIdx_cons_zero]
      | succ i =>
          rw [List.getElem?_cons_succ] at hn
          have hne : m.1 ≠ n.1 := fun hsame =>
            hnew (List.mem_map.2 ⟨n, List.mem_of_getElem? hn, hsame.symm⟩)
          rw [List.filter_cons_of_pos (by simpa using hne), List.eraseIdx_cons_succ,
            ih hdistinct hn]

/-- One node has a key that occurs. -/
theorem length_without {nodes : NodeList} (hdistinct : nodes.keys.Nodup) {key : PublicKey}
    (hmem : key ∈ nodes.keys) : (nodes.filter fun n => n.1 != key).length + 1 = nodes.length := by
  obtain ⟨n, hn, rfl⟩ := List.mem_map.1 hmem
  obtain ⟨i, hi, rfl⟩ := List.getElem_of_mem hn
  rw [← eraseIdx_eq_filter hdistinct (List.getElem?_eq_getElem hi), List.length_eraseIdx_of_lt hi]
  omega

end NodeList

section Draw

variable {fork : HardFork} {leader producer : PublicKey} {e : Hash} {round : Nat}
  {active others : NodeList}

/-- In a later round all active nodes are candidates. -/
theorem pulseCandidates_perm_active (hround : 0 < round) (leader : PublicKey)
    (active : NodeList) : (pulseCandidates leader active round).Perm active := by
  have hall := pulseCandidates_perm leader active round
  rwa [List.filter_eq_self.2 fun n _ => by simp [hround]] at hall

/-- A producer is found among active nodes, and leaves all others to validate. -/
theorem exists_drawProducer (hdistinct : active.keys.Nodup) (hleader : leader ∈ active.keys)
    (fork : HardFork) (e : Hash) (round : Nat) :
    ∃ producer others,
      drawProducer fork leader e round (pulseCandidates leader active round) =
        some (producer, others) ∧ others.length + 1 = active.length := by
  unfold drawProducer
  by_cases hround : round = 0
  · rw [if_pos hround]
    refine ⟨_, _, rfl, ?_⟩
    rw [← NodeList.length_without hdistinct hleader, (pulseCandidates_perm _ _ _).length_eq]
    simp [hround]
  · have hcandidates :=
      (pulseCandidates_perm_active (Nat.pos_of_ne_zero hround) leader active).length_eq
    have hsome : 0 < (pulseCandidates leader active round).length := by
      rw [hcandidates, ← NodeList.length_keys]
      exact List.length_pos_of_mem hleader
    have hindex := drawBelow_lt hsome (quorumGenerator fork e .pulse)
    rw [if_neg hround]
    dsimp only
    rw [List.getElem?_eq_getElem hindex]
    refine ⟨_, _, rfl, ?_⟩
    rw [List.length_eraseIdx_of_lt hindex, ← hcandidates]
    omega

/-- The leader produces the block of round zero, and some active node that of a later round. -/
theorem producer_of_drawProducer
    (h : drawProducer fork leader e round (pulseCandidates leader active round) =
      some (producer, others)) :
    (round = 0 → producer = leader) ∧ (round ≠ 0 → producer ∈ active.keys) := by
  unfold drawProducer at h
  split at h
  · rename_i hround
    cases h
    exact ⟨fun _ => rfl, fun hne => absurd hround hne⟩
  · rename_i hround
    obtain ⟨node, hnode, h⟩ := Option.map_eq_some_iff.1 h
    cases h
    have hmem := List.mem_map_of_mem (f := (·.1)) (List.mem_of_getElem? hnode)
    exact ⟨fun hzero => absurd hzero hround, fun _ => (keys_pulseCandidates hmem).1⟩

end Draw

/-! ## Complete quorums -/

section Complete

variable {minNodes : Nat} {leader : PublicKey} {fork : HardFork} {active : NodeList}
  {entropy : List Hash} {round : Nat}

/-- A Pulse quorum of a registry's nodes is complete, in whatever round, exactly if there is a
leader, entropy for all members, and enough active nodes. -/
theorem isCompletePulse_pulseQuorum_iff (hdistinct : active.keys.Nodup)
    (hleader : leader ≠ 0 → leader ∈ active.keys) :
    (pulseQuorum minNodes leader fork active entropy round).isCompletePulse = true ↔
      leader ≠ 0 ∧ HardFork.pulse ≤ fork ∧ entropy.length = pulseQuorumSize ∧
        minNodes ≤ active.length ∧ pulseQuorumSize ≤ active.length := by
  constructor
  · intro h
    obtain ⟨hnonzero, hfork, hmany, first, rest, producer, others, rfl, hrest, hproducer, henough,
        -⟩ :=
      exists_draw_of_complete h
    obtain ⟨producer', others', hdrawn, hlength⟩ :=
      exists_drawProducer hdistinct (hleader hnonzero) fork first round
    cases hproducer.symm.trans hdrawn
    refine ⟨hnonzero, hfork, by rw [List.length_cons, hrest]; rfl, hmany, ?_⟩
    rw [← hlength]
    exact Nat.succ_le_succ henough
  · rintro ⟨hnonzero, hfork, hentropy, hmany, henough⟩
    obtain ⟨first, rest, rfl⟩ := List.exists_cons_of_length_eq_add_one hentropy
    have hrest : rest.length = pulseValidators := Nat.succ.inj hentropy
    obtain ⟨producer, others, hproducer, hlength⟩ :=
      exists_drawProducer hdistinct (hleader hnonzero) fork first round
    have hothers : pulseValidators ≤ others.length := by
      unfold pulseQuorumSize at henough
      omega
    unfold pulseCandidates at hproducer
    unfold pulseQuorum
    dsimp only
    rw [if_neg (by simp [hnonzero, hrest, HardFork.not_lt.2 hfork, Nat.not_lt.2 hmany]), hproducer]
    dsimp only
    rw [if_neg (Nat.not_lt.2 hothers)]
    simp only [Quorum.isCompletePulse, List.length_map, List.length_take,
      (drawValidators_perm _ _ _ _ _).length_eq, Nat.min_eq_left hothers]
    rfl

/-- The producer of a complete quorum is an active node, and the leader in round zero. -/
theorem producer_of_complete
    (h : (pulseQuorum minNodes leader fork active entropy round).isCompletePulse = true)
    (hleader : leader ≠ 0 → leader ∈ active.keys) :
    ∃ producer, (pulseQuorum minNodes leader fork active entropy round).workers = [producer] ∧
      producer ∈ active.keys ∧ (round = 0 → producer = leader) := by
  obtain ⟨hnonzero, -, -, first, rest, producer, others, -, -, hproducer, -, hquorum⟩ :=
    exists_draw_of_complete h
  obtain ⟨hzero, hlater⟩ := producer_of_drawProducer hproducer
  refine ⟨producer, by rw [hquorum], ?_, hzero⟩
  by_cases hround : round = 0
  · rw [hzero hround]
    exact hleader hnonzero
  · exact hlater hround

end Complete

/-! ## The quorum that a block keeps -/

namespace Registry

/-- The reward queue is led by the zero key, when nobody is active, or by an active node. -/
theorem leader_cases (r : Registry) :
    (r.active = [] ∧ r.leader.key = 0) ∨ r.leader.key ∈ r.active.keys := by
  have hperm : r.rewardQueue.Perm r.active := List.mergeSort_perm _ _
  unfold leader
  cases hqueue : r.rewardQueue with
  | nil =>
      rw [hqueue] at hperm
      exact .inl ⟨hperm.nil_eq.symm, rfl⟩
  | cons first rest =>
      rw [hqueue] at hperm
      exact .inr (List.mem_map.2 ⟨first, hperm.mem_iff.1 List.mem_cons_self, rfl⟩)

theorem leader_mem_active {r : Registry} (hleader : r.leader.key ≠ 0) :
    r.leader.key ∈ r.active.keys :=
  r.leader_cases.resolve_left fun hnone => hleader hnone.2

theorem leader_key_ne_zero {r : Registry} (hsome : 0 < r.active.length)
    (hkeys : ∀ key ∈ r.active.keys, key ≠ 0) : r.leader.key ≠ 0 := by
  rcases r.leader_cases with ⟨hnone, -⟩ | hmem
  · rw [hnone] at hsome
    cases hsome
  · exact hkeys _ hmem

/-- The quorum of a block that the leader of the reward queue leads is complete exactly if there
is a leader, and the chain and the active nodes give what it takes. -/
theorem isCompletePulse_quorumProducing_iff {r : Registry} {rules : NetworkRules}
    {suite : CryptoSuite} {chain : ChainReader} {block : Block} :
    (r.quorumProducing rules suite chain block r.leader.key).isCompletePulse = true ↔
      r.leader.key ≠ 0 ∧ HardFork.pulse ≤ block.fork ∧
        (pulseEntropy chain suite block.prevHash block.pulse.round).length = pulseQuorumSize ∧
        rules.pulseMinNodes ≤ r.active.length ∧ pulseQuorumSize ≤ r.active.length :=
  isCompletePulse_pulseQuorum_iff (nodup_keys_select r _) leader_mem_active

theorem pulse_formPulseQuorum_iff {r : Registry} {ctx : Context} {block : Block}
    {winner : PublicKey} {q : Quorum} (hnone : r.quorums.pulse = none) :
    (r.formPulseQuorum ctx block winner).quorums.pulse = some q ↔
      HardFork.pulse ≤ block.fork ∧ q.isCompletePulse = true ∧
        q = r.quorumProducing ctx.rules ctx.suite ctx.chain block winner := by
  unfold formPulseQuorum
  split
  · rename_i hfork
    rw [hnone]
    exact ⟨nofun, fun h => absurd hfork (HardFork.not_lt.2 h.1)⟩
  · rename_i hfork
    dsimp only
    generalize r.quorumProducing ctx.rules ctx.suite ctx.chain block winner = formed
    split
    · rename_i hcomplete
      constructor
      · intro h
        cases h
        exact ⟨HardFork.not_lt.1 hfork, hcomplete, rfl⟩
      · rintro ⟨-, -, rfl⟩
        rfl
    · rename_i hcomplete
      rw [hnone]
      refine ⟨nofun, ?_⟩
      rintro ⟨-, h, rfl⟩
      exact absurd h hcomplete

/-- The Pulse quorum of a registry after a block is the one that its declared winner leads,
drawn from the nodes active before the block, if that one is complete. -/
theorem pulse_of_apply_iff {r next : Registry} {ctx : Context} {block : Block}
    {txs : List Transaction} {outcome : Outcome} {q : Quorum}
    (h : r.apply ctx block txs = .ok (next, outcome)) :
    next.quorums.pulse = some q ↔ HardFork.pulse ≤ block.fork ∧ q.isCompletePulse = true ∧
      q = r.quorumProducing ctx.rules ctx.suite ctx.chain block (block.minerTx.winner?.getD 0) := by
  obtain ⟨-, -, quorums, hdrawn, rfl⟩ := apply_eq_ok_iff.1 h
  have hquorums := (samePlace_settled r ctx block txs).quorums.trans
    (samePlace_opened r ctx block).quorums
  have hpulse := pulse_of_drawQuorums hdrawn
  rw [hquorums] at hpulse
  show quorums.pulse = some q ↔ _
  rw [hpulse]
  exact pulse_formPulseQuorum_iff (r := r.atBlock block) rfl

end Registry

/-! ## A chain with entropy -/

/-- A chain without end of plain blocks, each found by the number that its hash writes. -/
def ChainReader.plain (fork : HardFork) : ChainReader where
  currentHeight := 0
  blockAt? height := some (.plain height fork)
  blockByHash? hash := some (.plain (leNat hash.toList) fork)
  transaction? _ := none

/-- A block on that chain with a signature, whose miner transaction declares a winner. -/
def Block.declaring (height : Nat) (fork : HardFork) (winner : PublicKey) : Block :=
  { Block.plain height fork with
    signatures := [⟨0, default⟩]
    minerTx := { (default : Transaction) with extra := [.winner winner] } }

theorem length_pulseEntropy_plain : ∀ height ∈ [30, 31],
    (pulseEntropy (.plain .v21) .trusting (.writing height) 0).length = pulseQuorumSize := by
  decide +kernel

namespace Registry

/-- Twelve active nodes that need no stakes. -/
def twelve : Registry :=
  { new 30 with
    nodes := (List.range 12).foldl (fun nodes i => nodes.insert (.writing (i + 1)) default) ∅ }

theorem keys_active_twelve :
    twelve.active.keys = (List.range 12).map fun i => .writing (i + 1) := by
  decide +kernel

/-- The twelve nodes have a quorum for a block, where there is entropy for it. -/
theorem isCompletePulse_twelve {chain : ChainReader} {block : Block}
    (hfork : HardFork.pulse ≤ block.fork)
    (hentropy : (pulseEntropy chain .trusting block.prevHash block.pulse.round).length =
      pulseQuorumSize) :
    (twelve.quorumProducing (.of .fakechain) .trusting chain block
      twelve.leader.key).isCompletePulse = true := by
  have hcount : twelve.active.length = 12 := by
    rw [← NodeList.length_keys, keys_active_twelve, List.length_map, List.length_range]
  have hleader : twelve.leader.key ≠ 0 := by
    refine leader_key_ne_zero (hcount ▸ by decide) ?_
    rw [keys_active_twelve]
    decide +kernel
  refine isCompletePulse_quorumProducing_iff.2 ⟨hleader, hfork, hentropy, ?_⟩
  rw [hcount]
  decide

end Registry

end StakeRegistry
