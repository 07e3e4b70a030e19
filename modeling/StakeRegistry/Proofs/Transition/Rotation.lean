import Mathlib.Data.List.Perm.Subperm
import StakeRegistry.Proofs.Quorum.Reach
import StakeRegistry.Proofs.Transition.Sorters

/-!
# Validators of Pulse take turns

The nodes that validated in the last block have noted the greatest height of all, so they stand
at the end of the next order, behind everyone else. A quorum does not reach that far when enough
nodes are active. Main statement:

* `Registry.pulse_rotates`: with forty-one active nodes, no two quorums in a row share a
  validator.
-/

set_option autoImplicit false

namespace StakeRegistry

/-! ## The end of the order -/

/-- In an order in which a property, once met, is met to the end, the items that it holds of are
the last. -/
theorem eq_false_of_mem_take {α : Type} {l : List α} {p : α → Bool}
    (hmono : l.Pairwise fun a b => p a = true → p b = true) {few : Nat} (hfew : l.countP p ≤ few) :
    ∀ a ∈ l.take (l.length - few), p a = false := by
  induction l with
  | nil => simp
  | cons first l ih =>
      obtain ⟨hfirst, hmono⟩ := List.pairwise_cons.1 hmono
      cases hp : p first with
      | true =>
          -- All the others follow, and are few.
          have hall : l.countP p = l.length :=
            List.countP_eq_length.2 fun a ha => hfirst a ha hp
          rw [List.countP_cons_of_pos hp, hall] at hfew
          rw [List.length_cons, Nat.sub_eq_zero_of_le hfew]
          simp
      | false =>
          rw [List.countP_cons_of_neg (by simp [hp])] at hfew
          intro a ha
          by_cases hsome : few ≤ l.length
          · rw [List.length_cons, Nat.succ_sub hsome, List.take_succ_cons] at ha
            rcases List.mem_cons.1 ha with rfl | ha
            · exact hp
            · exact ih hmono hfew a ha
          · rw [List.length_cons, Nat.sub_eq_zero_of_le (by omega)] at ha
            cases ha

theorem lastHeight_le_of_pulseOrder {a b : PublicKey × NodeInfo}
    (h : (pulseOrder a b).isLE = true) :
    a.2.pulseSorter.lastHeight ≤ b.2.pulseSorter.lastHeight := by
  rcases Ordering.isLE_then_iff_or.1 h with hlt | ⟨heq, -⟩
  · rcases Ordering.then_eq_lt.1 hlt with hlt | ⟨heq, -⟩
    · exact Nat.le_of_lt (Nat.compare_eq_lt.1 hlt)
    · exact Nat.le_of_eq (Nat.compare_eq_eq.1 heq)
  · exact Nat.le_of_eq (Nat.compare_eq_eq.1 (Ordering.then_eq_eq.1 heq).1)

/-- When at most eleven nodes have validated at a height or later, and at least forty are on the
bench, a quorum does not reach the eleven. -/
theorem lastHeight_lt_of_reach {active : NodeList} {producer : PublicKey} {height : Nat}
    (hfew : (pulseBench active producer).countP
      (fun n => decide (height ≤ n.2.pulseSorter.lastHeight)) ≤ 11)
    (hmany : 40 ≤ (pulseBench active producer).length) {n : PublicKey × NodeInfo}
    (hn : n ∈ (pulseBench active producer).take
      (((pulseBench active producer).length - 1) / 2 + 10)) :
    n.2.pulseSorter.lastHeight < height := by
  have hmono : (pulseBench active producer).Pairwise fun a b =>
      decide (height ≤ a.2.pulseSorter.lastHeight) = true →
        decide (height ≤ b.2.pulseSorter.lastHeight) = true :=
    (pairwise_pulseBench active producer).imp fun hle hlate =>
      decide_eq_true (Nat.le_trans (of_decide_eq_true hlate) (lastHeight_le_of_pulseOrder hle))
  have hearly := eq_false_of_mem_take hmono hfew n
    ((List.take_sublist_take_left (by omega)).subset hn)
  exact Nat.not_le.1 (of_decide_eq_false hearly)

namespace Registry

/-! ## Two blocks in a row -/

section Consecutive

variable {r s : Registry} {ctx : Context} {block : Block} {txs : List Transaction}
  {outcome : Outcome} {Allowed : Context → Block → List Transaction → Prop}

/-- Whoever has noted the height of a block after it is one of its validators. -/
theorem validates_of_lastHeight (hr : Arises Allowed r)
    (happly : r.apply ctx block txs = .ok (s, outcome)) {key : PublicKey} {info : NodeInfo}
    (hinfo : s.info? key = some info) (hlate : block.height ≤ info.pulseSorter.lastHeight) :
    s.Validates key := by
  have hheight := height_before_apply happly
  by_contra hnot
  rcases sorter_of_apply happly hinfo with ⟨hnew, -⟩ | ⟨old, hold, -, hquiet⟩
  · rw [hnew] at hlate
    exact absurd (Nat.le_zero.1 hlate) (by omega)
  · have hbefore := hr.validated_by_now key old hold
    rw [hquiet hnot] at hlate
    omega

/-- A validator that no transaction of the block has registered has noted the block's height. -/
theorem lastHeight_of_validates (happly : r.apply ctx block txs = .ok (s, outcome))
    {key : PublicKey} {info : NodeInfo} (hinfo : s.info? key = some info)
    (hvalidates : s.Validates key) (hnew : key ∉ outcome.registered) :
    info.pulseSorter.lastHeight = block.height := by
  rcases sorter_of_apply happly hinfo with ⟨-, hlisted⟩ | ⟨old, -, hnoted, -⟩
  · obtain ⟨q, hq, -⟩ := hvalidates
    have hfork := ((pulse_of_apply_iff happly).1 hq).1
    exact absurd (hlisted (Nat.le_trans (by decide) hfork)) hnew
  · exact hnoted hvalidates

theorem mem_of_mem_pulseBench {producer : PublicKey} {n : PublicKey × NodeInfo}
    (h : n ∈ pulseBench s.active producer) : s.info? n.1 = some n.2 := by
  have hactive := List.mem_of_mem_filter ((pulseBench_perm s.active producer).mem_iff.1 h)
  exact SortedMap.get?_eq_some_iff.2 (List.mem_of_mem_filter hactive)

/-- Of any bench after a block, at most the eleven validators have noted the block's height. -/
theorem countP_validated_le (hr : Arises Allowed r)
    (happly : r.apply ctx block txs = .ok (s, outcome)) {q : Quorum}
    (hq : s.quorums.pulse = some q) (producer : PublicKey) :
    (pulseBench s.active producer).countP
      (fun n => decide (block.height ≤ n.2.pulseSorter.lastHeight)) ≤ 11 := by
  have hlength : q.validators.length = 11 :=
    ((quorumsFormed_of_apply happly).pulse q hq).2.validators_length
  rw [List.countP_eq_length_filter, ← hlength, ← NodeList.length_keys]
  -- Their keys differ, and all are keys of validators.
  refine List.Subperm.length_le (List.subperm_of_subset ?_ fun key hkey => ?_)
  · have hkeys : (pulseBench s.active producer).keys.Nodup :=
      (NodeList.keys_perm (pulseBench_perm s.active producer)).nodup_iff.2
        ((nodup_keys_select s _).sublist (NodeList.keys_sublist List.filter_sublist))
    exact hkeys.sublist (NodeList.keys_sublist List.filter_sublist)
  · obtain ⟨n, hn, rfl⟩ := List.mem_map.1 hkey
    obtain ⟨hbench, hlate⟩ := List.mem_filter.1 hn
    obtain ⟨q', hq', hmem⟩ := validates_of_lastHeight hr happly (mem_of_mem_pulseBench hbench)
      (of_decide_eq_true hlate)
    cases hq.symm.trans hq'
    exact hmem

end Consecutive

/-- A bench has all active nodes but one at most. -/
theorem length_le_pulseBench (r : Registry) (producer : PublicKey) :
    r.active.length ≤ (pulseBench r.active producer).length + 1 := by
  rw [(pulseBench_perm r.active producer).length_eq]
  by_cases hmem : producer ∈ r.active.keys
  · have hlength : (r.active.filter fun n => n.1 != producer).length + 1 = r.active.length :=
      NodeList.length_without (nodup_keys_select r _) hmem
    omega
  · have hall : r.active.filter (fun n => n.1 != producer) = r.active :=
      List.filter_eq_self.2 fun n hn => bne_iff_ne.2 fun hsame =>
        hmem (List.mem_map.2 ⟨n, hn, hsame⟩)
    rw [hall]
    exact Nat.le_succ _

/-- **Rotation.** Eleven validators drawn from `n` candidates are among the first
`(n - 1) / 2 + 10` of them, so those of a complete Pulse quorum are among the first of the nodes
that its producer leaves, in the order of their turns. Hence after a block with a complete Pulse
quorum `q`, none of whose validators a transaction of the block has registered, the next block
has a quorum without validators of `q` if there are forty-one active nodes to choose from. -/
theorem pulse_rotates :
    (∀ (fork : HardFork) (candidates : NodeList) (entropy : List Hash), entropy.length = 11 →
      11 ≤ candidates.length →
      ((drawValidators fork ((candidates.length - 1) / 2) 0 entropy candidates).take 11).length =
          11 ∧
        ∀ n ∈ (drawValidators fork ((candidates.length - 1) / 2) 0 entropy candidates).take 11,
          n ∈ candidates.take ((candidates.length - 1) / 2 + 10)) ∧
    (∀ (minNodes : Nat) (leader : PublicKey) (fork : HardFork) (active : NodeList)
      (entropy : List Hash) (round : Nat), active.keys.Nodup →
      (pulseQuorum minNodes leader fork active entropy round).isCompletePulse = true →
      ∃ producer, (pulseQuorum minNodes leader fork active entropy round).workers = [producer] ∧
        11 ≤ (pulseBench active producer).length ∧
        ∀ key ∈ (pulseQuorum minNodes leader fork active entropy round).validators,
          key ∈ NodeList.keys ((pulseBench active producer).take
            (((pulseBench active producer).length - 1) / 2 + 10))) ∧
    ∀ {Allowed : Context → Block → List Transaction → Prop} {r s next : Registry}
      {ctx ctx' : Context} {block block' : Block} {txs txs' : List Transaction}
      {outcome outcome' : Outcome} {q q' : Quorum}, Arises Allowed r →
      r.apply ctx block txs = .ok (s, outcome) → s.quorums.pulse = some q →
      (∀ key ∈ q.validators, key ∉ outcome.registered) → 41 ≤ s.active.length →
      s.apply ctx' block' txs' = .ok (next, outcome') → next.quorums.pulse = some q' →
      ∀ key ∈ q'.validators, key ∉ q.validators := by
  refine ⟨fun fork candidates entropy => drawValidators_reach fork,
    fun _ _ _ _ _ _ => reach_of_complete, ?_⟩
  intro Allowed r s next ctx ctx' block block' txs txs' outcome outcome' q q' hr happly hq hold
    hmany happly' hq' key hnext hlast
  obtain ⟨-, hcomplete, hdrawn⟩ := (pulse_of_apply_iff happly').1 hq'
  rw [hdrawn] at hcomplete hnext
  obtain ⟨producer, -, -, hreach⟩ := reach_of_complete (nodup_keys_select s _) hcomplete
  obtain ⟨n, hn, rfl⟩ := List.mem_map.1 (hreach _ hnext)
  have hbench := s.length_le_pulseBench producer
  have hearly := lastHeight_lt_of_reach (countP_validated_le hr happly hq producer) (by omega) hn
  have hlate := lastHeight_of_validates happly (mem_of_mem_pulseBench (List.mem_of_mem_take hn))
    ⟨q, hq, hlast⟩ (hold _ hlast)
  omega

/-! ## Three blocks of a crowd -/

/-- What a Pulse quorum notes ends no node's life. -/
theorem expiring_formPulseQuorum {r : Registry} {ctx : Context} {block : Block}
    (hfork : block.fork ≠ HardFork.serviceNodes)
    (hlasting : r.Every fun info => info.hasExpired ctx.rules block.height = false)
    (winner : PublicKey) :
    (((r.atBlock block).formPulseQuorum ctx block winner).trimBlacklist block).expiring ctx
      block.fork block.height = [] := by
  let R : NodeInfo → NodeInfo → Prop := fun info info' =>
    info'.hasExpired ctx.rules block.height = info.hasExpired ctx.rules block.height
  have : NodeInfo.Frame R := ⟨fun _ => rfl, fun h h' => h'.trans h⟩
  have hformed : r.KeepsEntries R
      (((r.atBlock block).formPulseQuorum ctx block winner).trimBlacklist block) :=
    (show r.KeepsEntries R (r.atBlock block) from .of_nodes rfl).trans
      (.trans (.formPulseQuorum (fun _ _ => rfl) _ ctx block winner) (.trimBlacklist _ block))
  unfold expiring select
  rw [if_neg hfork, List.map_eq_nil_iff, List.filter_eq_nil_iff]
  intro n hn
  obtain ⟨info, hinfo, hsame⟩ := hformed n.1 n.2 (SortedMap.get?_eq_some_iff.2 hn)
  have hlast : n.2.hasExpired ctx.rules block.height = false :=
    hsame.trans (hlasting n.1 info hinfo)
  exact Bool.eq_false_iff.1 hlast

/-- When no stake runs out, a block without transactions leaves the active nodes active, and
registers nobody. -/
theorem sameActive_of_quiet {r next : Registry} {ctx : Context} {block : Block} {outcome : Outcome}
    (hfork : block.fork ≠ HardFork.serviceNodes)
    (hlasting : r.Every fun info => info.hasExpired ctx.rules block.height = false)
    (happly : r.apply ctx block [] = .ok (next, outcome)) :
    r.SameActive next ∧ outcome.registered = [] := by
  obtain ⟨-, rfl, quorums, -, rfl⟩ := apply_eq_ok_iff.1 happly
  have hopened : r.draft ctx block [] =
      { registry := (((r.atBlock block).formPulseQuorum ctx block
          (block.minerTx.winner?.getD 0)).trimBlacklist block).payWinner block
            (block.minerTx.winner?.getD 0) } := by
    unfold draft Draft.expireNodes
    dsimp only
    rw [expiring_formPulseQuorum hfork hlasting]
    rfl
  have hdrafted : r.SameActive (r.draft ctx block []).registry := by
    rw [hopened]
    exact (((show r.SameActive (r.atBlock block) from fun _ => rfl).trans
      (.formPulseQuorum _ ctx block _)).trans (.trimBlacklist _ block)).trans (.payWinner _ block _)
  constructor
  · show r.SameActive (r.settled ctx block [])
    unfold settled
    dsimp only
    split
    · exact hdrafted.trans (.rebalanceSwarms _ block)
    · exact hdrafted
  · rw [hopened]

/-- The fake chain of plain blocks, with signatures that all pass. -/
def contextOfPlain : Context :=
  ⟨.of .fakechain, .trusting, .plain .v21, .of (new 0) (.new 0)⟩

/-- The nodes that forty-one registrations through the bridge enter. -/
def crowd : Registry :=
  (new 29).settled contextOfPlain (.plain 30 .v21)
    ((List.range 41).map fun i => .registering (i + 1))

theorem keys_active_crowd : crowd.active.keys = (List.range 41).map fun i => .writing (i + 1) := by
  decide +kernel

theorem lasting_crowd :
    ∀ n ∈ crowd.nodes.toList, n.2.requestedUnlockHeight = 0 ∧ n.2.registrationFork = .v21 := by
  decide +kernel

/-- As long as the crowd is active, its leader's blocks have complete Pulse quorums. -/
theorem exists_quorum_of_crowd {r : Registry} (hheight : r.height ∈ [30, 31])
    (hkeys : r.active.keys.Perm crowd.active.keys) :
    ∃ next outcome q,
      r.apply contextOfPlain (.declaring (r.height + 1) .v21 r.leader.key) [] =
        .ok (next, outcome) ∧ next.quorums.pulse = some q := by
  have hlength : r.active.length = 41 := by
    rw [← NodeList.length_keys, hkeys.length_eq, keys_active_crowd, List.length_map,
      List.length_range]
  have hnonzero : ∀ key ∈ crowd.active.keys, key ≠ 0 := by
    rw [keys_active_crowd]
    decide +kernel
  have hleader : r.leader.key ≠ 0 :=
    leader_key_ne_zero (hlength ▸ by decide) fun key hkey => hnonzero key (hkeys.mem_iff.1 hkey)
  have hpulse : HardFork.pulse ≤ HardFork.v21 := by decide
  have hcomplete : (r.quorumProducing (.of .fakechain) .trusting (.plain .v21)
      (.declaring (r.height + 1) .v21 r.leader.key) r.leader.key).isCompletePulse = true := by
    refine isCompletePulse_quorumProducing_iff.2
      ⟨hleader, hpulse, length_pulseEntropy_plain _ hheight, ?_⟩
    rw [hlength]
    decide
  obtain ⟨next, outcome, happly, -⟩ := exists_apply_eq_ok contextOfPlain []
    (show r.height + 1 = (Block.declaring (r.height + 1) .v21 r.leader.key).height from rfl)
  exact ⟨next, outcome, _, happly, (pulse_of_apply_iff happly).2 ⟨hpulse, hcomplete, rfl⟩⟩

/-- Two Pulse quorums in a row of the crowd. -/
theorem pulse_rotates_crowd :
    ∃ (r s next : Registry) (outcome outcome' : Outcome) (q q' : Quorum),
      r.apply contextOfPlain (.declaring 31 .v21 r.leader.key) [] = .ok (s, outcome) ∧
        s.quorums.pulse = some q ∧
        s.apply contextOfPlain (.declaring 32 .v21 s.leader.key) [] = .ok (next, outcome') ∧
        next.quorums.pulse = some q' ∧ ∀ key ∈ q'.validators, key ∉ q.validators := by
  obtain ⟨r, entered, hentered, -⟩ := exists_apply_eq_ok contextOfPlain
    ((List.range 41).map fun i => .registering (i + 1))
    (show (new 29).height + 1 = (Block.plain 30 .v21).height from rfl)
  have hr : Arises (fun _ _ _ => True) r := ⟨29, .single ⟨_, _, _, _, trivial, hentered⟩⟩
  obtain ⟨-, -, quorums, -, hsettled⟩ := apply_eq_ok_iff.1 hentered
  have hheight : r.height = 30 := height_of_apply hentered
  have hnodes : r.nodes = crowd.nodes := by
    rw [hsettled, crowd]
  have hkeys : r.active.keys = crowd.active.keys := by
    unfold active select
    rw [hnodes]
  have hlasting : r.Every fun info => info.hasExpired (.of .fakechain) 31 = false := by
    intro key info hinfo
    rw [info?, hnodes] at hinfo
    obtain ⟨hunlock, hfork⟩ := lasting_crowd (key, info) (SortedMap.get?_eq_some_iff.1 hinfo)
    unfold NodeInfo.hasExpired
    rw [hunlock, hfork]
    rfl
  obtain ⟨s, outcome, q, happly, hq⟩ := exists_quorum_of_crowd (r := r) (by simp [hheight])
    (hkeys ▸ .refl _)
  rw [hheight] at happly
  obtain ⟨hactive, hnobody⟩ :=
    sameActive_of_quiet (show HardFork.v21 ≠ .serviceNodes by decide) hlasting happly
  have hkeys' : s.active.keys.Perm crowd.active.keys := hkeys ▸ hactive.keys_perm
  have hheight' : s.height = 31 := height_of_apply happly
  obtain ⟨next, outcome', q', happly', hq'⟩ :=
    exists_quorum_of_crowd (r := s) (by simp [hheight']) hkeys'
  rw [hheight'] at happly'
  refine ⟨r, s, next, outcome, outcome', q, q', happly, hq, happly', hq', ?_⟩
  refine pulse_rotates.2.2 hr happly hq (fun key _ => ?_) ?_ happly' hq'
  · rw [hnobody]
    exact List.not_mem_nil
  · rw [← NodeList.length_keys, hkeys'.length_eq, keys_active_crowd]
    decide

end Registry

end StakeRegistry
