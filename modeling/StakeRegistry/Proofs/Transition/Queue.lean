import Mathlib.Data.List.Perm.Subperm
import StakeRegistry.Proofs.Quorum.Forming
import StakeRegistry.Proofs.Transition.Applied
import StakeRegistry.Proofs.Transition.Moves
import StakeRegistry.Proofs.Transition.Sorters

/-!
# Nobody waits forever in the reward queue

Whoever a block puts anywhere in the reward queue, it puts behind all nodes that it leaves where
they are: a place is the height at which it was taken (`Registry.KeepsQueue`). So nobody gets in
ahead of a node that waits, and with every block whose leader is paid there is one node less ahead
of it. Main statements:

* `Draft.place_of_move`: the places that a transaction gives out, and to whom;
* `Registry.Row.exists_paid`: a node with `n` nodes ahead of it is the winner of one of the next
  `n + 1` blocks, if it stays active and is neither penalised nor registered anew.
-/

set_option autoImplicit false

namespace StakeRegistry

/-! ## Places in the queue -/

namespace NodeInfo

/-- Both entries have one place in the reward queue, and the node is active in the second only if
it was in the first. -/
structure SameRank (info info' : NodeInfo) : Prop where
  height : info'.lastRewardHeight = info.lastRewardHeight
  index : info'.lastRewardIndex = info.lastRewardIndex
  active : info'.isActive = true → info.isActive = true

instance : Frame SameRank where
  refl _ := ⟨rfl, rfl, id⟩
  trans h h' := ⟨h'.height.trans h.height, h'.index.trans h.index, h.active ∘ h'.active⟩

end NodeInfo

namespace Registry

/-- Every entry of the second registry has been put in its place at a height, or has the place of
an entry of the first. -/
def KeepsQueue (height : Nat) (r r' : Registry) : Prop :=
  ∀ key info', r'.info? key = some info' → info'.lastRewardHeight = height ∨
    ∃ info, r.info? key = some info ∧ info.SameRank info'

namespace KeepsQueue

variable {height : Nat} {r r' r'' : Registry}

theorem of_keepsEntries (h : r.KeepsEntries NodeInfo.SameRank r') : r.KeepsQueue height r' :=
  fun key info' hinfo' => .inr (h key info' hinfo')

theorem trans (h : r.KeepsQueue height r') (h' : r'.KeepsQueue height r'') :
    r.KeepsQueue height r'' := by
  intro key info'' hinfo''
  rcases h' key info'' hinfo'' with hplaced | ⟨info', hinfo', hsame'⟩
  · exact .inl hplaced
  · rcases h key info' hinfo' with hplaced | ⟨info, hinfo, hsame⟩
    · exact .inl (hsame'.height.trans hplaced)
    · exact .inr ⟨info, hinfo, NodeInfo.Frame.trans hsame hsame'⟩

theorem payWinner (r : Registry) (block : Block) (winner : PublicKey) :
    r.KeepsQueue block.height (r.payWinner block winner) := by
  intro key info' hinfo'
  unfold Registry.payWinner at hinfo'
  rw [info?_modify] at hinfo'
  split at hinfo'
  · obtain ⟨info, -, rfl⟩ := Option.map_eq_some_iff.1 hinfo'
    exact .inl rfl
  · exact .inr ⟨info', hinfo', NodeInfo.Frame.refl info'⟩

end KeepsQueue

end Registry

/-! ## One transaction -/

theorem NodeInfo.lastRewardHeight_creditStake (info : NodeInfo) (fork : HardFork)
    (height index : Nat) (stake : Stake) :
    (info.creditStake fork height index stake).lastRewardHeight = height := by
  obtain ⟨_, _, _, _, heq⟩ := info.exists_creditStake_eq fork height index stake
  rw [heq]

namespace Draft

variable {ctx : Context} {block : Block} {index : Nat} {tx : Transaction} {d d' : Draft}
  {key : PublicKey} {info' : NodeInfo}

/-- A transaction takes a node out of its place in the queue although it stays active: it
registers the node anew, or brings votes that penalise a change of its address. -/
inductive Displaces (ctx : Context) (block : Block) (index : Nat) (tx : Transaction) (d : Draft)
    (key : PublicKey) : Prop where
  | registered {origin : Origin} (created : d.created? ctx block index tx = some (key, origin))
  | penalised {change : StateChange} {q : Quorum} {info : NodeInfo} (kind : tx.kind = .stateChange)
      (votes : Votes ctx block tx d change q key info) (asked : change.kind = .ipChangePenalty)
      (fork : HardFork.checkpointing ≤ block.fork)

/-- A bridge registration creates the entry that it touches. -/
theorem created?_of_bridgedNode {info : NodeInfo} (hkind : tx.kind = .bridgeRegistration)
    (hregisters : bridgedNode ctx.suite ctx.rules (block.place index) tx = .ok (key, info)) :
    d.created? ctx block index tx = some (key, .bridge) := by
  have hstakes : tx.kind ≠ TxKind.ofStakes block.fork :=
    TxKind.ne_ofStakes (by rw [hkind]; decide) _
  unfold created? bridged?
  rw [if_neg hstakes, if_pos hkind, hregisters]

/-- So does an ordinary one. -/
theorem info?_of_entering (h : Entering ctx block index tx d d')
    (hkind : tx.kind = TxKind.ofStakes block.fork) (key : PublicKey) :
    d'.registry.info? key = d.registry.info? key ∨
      d.created? ctx block index tx = some (key, .ordinary) := by
  unfold created? registered?
  rw [if_pos hkind]
  cases h with
  | nobody => exact .inl rfl
  | @newcomer node info registers vacant =>
      rw [registers]
      dsimp only
      rw [vacant]
      by_cases hkey : key = node
      · exact .inr (by rw [hkey])
      · exact .inl (by rw [enter, Registry.info?_put, if_neg hkey])
  | @again node info old entry registers found renews =>
      rw [registers]
      dsimp only
      rw [found]
      dsimp only
      rw [renews]
      by_cases hkey : key = node
      · exact .inr (by rw [hkey, Option.map_some])
      · exact .inl (by rw [enter, Registry.info?_put, if_neg hkey])

/-- A registration puts a new node at the end of the queue. One that is registered again keeps
its place, and is not active until it is funded. -/
theorem place_of_entering (hrequirement : 0 < ctx.rules.stakingRequirement)
    (h : Entering ctx block index tx d d') (hinfo' : d'.registry.info? key = some info') :
    (∃ info, d.registry.info? key = some info ∧ info.SameRank info') ∨
      info'.lastRewardHeight = block.height := by
  cases h with
  | nobody => exact .inl ⟨info', hinfo', NodeInfo.Frame.refl info'⟩
  | newcomer registers vacant =>
      rw [enter, Registry.info?_put] at hinfo'
      split at hinfo'
      · cases hinfo'
        obtain ⟨reg, operator, value, others, -, -, -, -, rfl⟩ := registeredNode_eq_some registers
        exact .inr rfl
      · exact .inl ⟨info', hinfo', NodeInfo.Frame.refl info'⟩
  | @again node info old entry registers found renews =>
      rw [enter, Registry.info?_put] at hinfo'
      split at hinfo'
      · rename_i hkey
        cases hinfo'
        unfold reregistered? at renews
        split at renews
        · cases renews
        · cases renews
          refine .inl ⟨old, hkey ▸ found, rfl, rfl, fun hactive => ?_⟩
          -- Nothing has been contributed yet.
          have hfunded := (Bool.and_eq_true _ _ ▸ hactive).1
          have hunfunded := unfunded_of_registeredNode hrequirement registers
          exact absurd (hfunded.symm.trans hunfunded) Bool.noConfusion
      · exact .inl ⟨info', hinfo', NodeInfo.Frame.refl info'⟩

/-- Only nodes that are not fully funded take stakes. -/
theorem place_of_crediting (h : Crediting ctx block index tx d d')
    (hinfo' : d'.registry.info? key = some info') :
    d.registry.info? key = some info' ∨
      info'.lastRewardHeight = block.height ∧ key ∉ d.registry.active.keys := by
  cases h with
  | nobody => exact .inl hinfo'
  | @taken stake info decoded found accepted =>
      rw [credited, Registry.info?_put] at hinfo'
      split at hinfo'
      · rename_i hkey
        cases hinfo'
        refine .inr ⟨info.lastRewardHeight_creditStake _ _ _ _, fun hactive => ?_⟩
        have hopen := NodeInfo.unfunded_of_acceptsStake accepted
        rw [Registry.active, Registry.mem_keys_select, hkey, found] at hactive
        simp [NodeInfo.isActive, hopen] at hactive
      · exact .inl hinfo'

/-- What a transaction does to a place in the queue: whoever gets a new place gets it at the
block's height, and an active node does only if the transaction displaces it. -/
theorem place_of_move (hrequirement : 0 < ctx.rules.stakingRequirement)
    (h : Move ctx block index tx d d') (hinfo' : d'.registry.info? key = some info') :
    (∃ info, d.registry.info? key = some info ∧ info.SameRank info') ∨
      info'.lastRewardHeight = block.height ∧
        (key ∈ d.registry.active.keys → Displaces ctx block index tx d key) := by
  have hstayed : d.registry.info? key = some info' →
      ∃ info, d.registry.info? key = some info ∧ info.SameRank info' := fun hinfo =>
    ⟨info', hinfo, NodeInfo.Frame.refl info'⟩
  cases h with
  | nothing => exact .inl (hstayed hinfo')
  | @staked entered funded kind enters credits =>
      rcases place_of_crediting credits hinfo' with hentered | ⟨hplaced, hinactive⟩
      · rcases info?_of_entering enters kind key with hsame | hcreated
        · exact .inl (hstayed (hsame ▸ hentered))
        · rcases place_of_entering hrequirement enters hentered with hold | hplaced
          · exact .inl hold
          · exact .inr ⟨hplaced, fun _ => .registered hcreated⟩
      · refine .inr ⟨hplaced, fun hactive => ?_⟩
        rcases info?_of_entering enters kind key with hsame | hcreated
        · rw [Registry.active, Registry.mem_keys_select, hsame, ← Registry.mem_keys_select]
            at hinactive
          exact absurd hactive hinactive
        · exact .registered hcreated
  | deregistered kind votes asked =>
      exact .inl (Registry.KeepsEntries.remove d.registry _ key info' hinfo')
  | decommissioned kind votes asked fork up =>
      refine .inl (Registry.KeepsEntries.put votes.registered ⟨rfl, rfl, ?_⟩ key info' hinfo')
      simp only [NodeInfo.isActive, up, Bool.not_false, Bool.and_true, Bool.and_eq_true]
      exact And.left
  | @recommissioned change q node info kind votes asked fork down =>
      rw [recommission, Registry.info?_put] at hinfo'
      split at hinfo'
      · rename_i hkey
        cases hinfo'
        refine .inr ⟨rfl, fun hactive => ?_⟩
        rw [Registry.active, Registry.mem_keys_select, hkey, votes.registered] at hactive
        simp [NodeInfo.isActive, down] at hactive
      · exact .inl (hstayed hinfo')
  | penalised kind votes asked fork up =>
      rw [penalise, Registry.info?_put] at hinfo'
      split at hinfo'
      · rename_i hkey
        cases hinfo'
        exact .inr ⟨rfl, fun _ => .penalised kind (hkey ▸ votes) asked fork⟩
      · exact .inl (hstayed hinfo')
  | unlocking kind names asks found granted =>
      exact .inl (Registry.KeepsEntries.put found ⟨rfl, rfl, id⟩ key info' hinfo')
  | @bridged node info kind registers =>
      rw [enterBridged, Registry.info?_put] at hinfo'
      split at hinfo'
      · rename_i hkey
        cases hinfo'
        refine .inr ⟨?_, fun _ => .registered (hkey ▸ created?_of_bridgedNode kind registers)⟩
        obtain ⟨reg, operator, -, -, rfl⟩ := bridgedNode_eq_ok registers
        rfl
      · exact .inl (hstayed hinfo')
  | @leaving node info kind names found =>
      refine .inl (Registry.KeepsEntries.put found ?_ key info' hinfo')
      unfold NodeInfo.leavingAt
      split
      · exact ⟨rfl, rfl, id⟩
      · exact NodeInfo.Frame.refl info
  | exited kind => exact .inl (hstayed hinfo')
  | expelled kind names => exact .inl (Registry.KeepsEntries.remove d.registry _ key info' hinfo')

end Draft

/-! ## One block -/

namespace Registry

variable {r : Registry} {ctx : Context} {block : Block}

/-- Before it pays its winner, a block changes no places. -/
theorem keepsRank_unpaid (r : Registry) (ctx : Context) (block : Block) :
    r.KeepsEntries NodeInfo.SameRank (r.unpaid ctx block).registry :=
  keepsEntries_unpaid (fun _ _ => ⟨rfl, rfl, id⟩) r ctx block

/-- New swarms change no places. -/
theorem keepsRank_settled (r : Registry) (ctx : Context) (block : Block)
    (txs : List Transaction) :
    (r.draft ctx block txs).registry.KeepsEntries NodeInfo.SameRank (r.settled ctx block txs) := by
  unfold settled
  dsimp only
  split
  · refine .foldl (fun r s => ?_) _ _
    exact .foldl (fun r key => .modify fun _ => ⟨rfl, rfl, id⟩) s.2 r
  · exact .refl _

/-- A block puts nobody into a place in the middle of the queue. -/
theorem keepsQueue_draft (hrequirement : 0 < ctx.rules.stakingRequirement) (r : Registry)
    (block : Block) (txs : List Transaction) :
    (r.opened ctx block).registry.KeepsQueue block.height (r.draft ctx block txs).registry := by
  rw [draft_eq]
  refine Draft.applyTransactions_induction
    (P := fun d => (r.opened ctx block).registry.KeepsQueue block.height d.registry)
    (.of_keepsEntries (.refl _)) fun d tx index _ h => h.trans fun key info' hinfo' => ?_
  exact (Draft.place_of_move hrequirement (Draft.move_applyTransaction d tx index)
    hinfo').symm.imp And.left id

variable {next : Registry} {txs : List Transaction} {outcome : Outcome}

/-- Whoever is registered after a block stands where it stood before, or at the block's height. -/
theorem keepsQueue_of_apply (hrequirement : 0 < ctx.rules.stakingRequirement)
    (h : r.apply ctx block txs = .ok (next, outcome)) : r.KeepsQueue block.height next := by
  obtain ⟨-, -, quorums, -, rfl⟩ := apply_eq_ok_iff.1 h
  have hopened : r.KeepsQueue block.height (r.opened ctx block).registry :=
    (KeepsQueue.of_keepsEntries (r.keepsRank_unpaid ctx block)).trans (.payWinner _ block _)
  have hdraft := hopened.trans (keepsQueue_draft hrequirement r block txs)
  exact hdraft.trans (.of_keepsEntries ((r.keepsRank_settled ctx block txs).trans (.of_nodes rfl)))

/-- The winner of a block stands at the block's height after it. -/
theorem lastRewardHeight_of_winner (hrequirement : 0 < ctx.rules.stakingRequirement)
    (h : r.apply ctx block txs = .ok (next, outcome)) {winner : PublicKey}
    (hwinner : block.minerTx.winner? = some winner) {info : NodeInfo}
    (hinfo : next.info? winner = some info) : info.lastRewardHeight = block.height := by
  obtain ⟨-, -, quorums, -, rfl⟩ := apply_eq_ok_iff.1 h
  have hrest : (r.opened ctx block).registry.KeepsQueue block.height
      { r.settled ctx block txs with quorums := quorums } :=
    (keepsQueue_draft hrequirement r block txs).trans
      (.of_keepsEntries ((r.keepsRank_settled ctx block txs).trans (.of_nodes rfl)))
  rcases hrest winner info hinfo with hplaced | ⟨paid, hpaid, hsame⟩
  · exact hplaced
  · rw [opened_eq, hwinner] at hpaid
    replace hpaid : ((r.unpaid ctx block).registry.modify winner
        (·.toQueueBack block.height)).info? winner = some paid := hpaid
    rw [info?_modify, if_pos rfl] at hpaid
    obtain ⟨unpaid, -, rfl⟩ := Option.map_eq_some_iff.1 hpaid
    exact hsame.height

/-- A block puts nobody at a height that is still to come. -/
theorem every_paid_by_now (hrequirement : 0 < ctx.rules.stakingRequirement)
    (hby : r.Every fun info => info.lastRewardHeight ≤ r.height)
    (h : r.apply ctx block txs = .ok (next, outcome)) :
    next.Every fun info => info.lastRewardHeight ≤ next.height := by
  intro key info hinfo
  have hheight := height_before_apply h
  rw [height_of_apply h]
  rcases keepsQueue_of_apply hrequirement h key info hinfo with hplaced | ⟨old, hold, hsame⟩
  · exact Nat.le_of_eq hplaced
  · rw [hsame.height]
    exact Nat.le_trans (hby key old hold) (hheight ▸ Nat.le_succ _)

end Registry

/-- The block leaves a node where it stands in the queue, unless it pays the node: before and after
each of its transactions the node is active, and none of them displaces it. -/
structure Applied.Undisturbed (a : Applied) (key : PublicKey) : Prop where
  active : ∀ count ≤ a.txs.length, key ∈ (a.draftAt count).registry.active.keys
  placed : ∀ i tx, a.txs[i]? = some tx →
    ¬ Draft.Displaces a.ctx a.block i tx (a.draftAt i) key

namespace Applied.Undisturbed

variable {a : Applied} {key : PublicKey} {info' : NodeInfo}

theorem sameRank_draftAt (hrequirement : 0 < a.ctx.rules.stakingRequirement)
    (h : a.Undisturbed key) (hwinner : a.block.minerTx.winner?.getD 0 ≠ key) {count : Nat}
    (hcount : count ≤ a.txs.length) (hinfo' : (a.draftAt count).registry.info? key = some info') :
    ∃ info, a.before.info? key = some info ∧ info.SameRank info' := by
  -- Over the transactions; the node is active in front of each, and none displaces it.
  induction count generalizing info' with
  | zero =>
      rw [a.draftAt_zero, Registry.opened_eq] at hinfo'
      replace hinfo' : ((a.before.unpaid a.ctx a.block).registry.modify _ _).info? key =
        some info' := hinfo'
      rw [Registry.info?_modify, if_neg (Ne.symm hwinner)] at hinfo'
      exact a.before.keepsRank_unpaid a.ctx a.block key info' hinfo'
  | succ count ih =>
      obtain ⟨tx, htx⟩ : ∃ tx, a.txs[count]? = some tx := ⟨_, List.getElem?_eq_getElem hcount⟩
      rw [a.draftAt_succ htx] at hinfo'
      rcases Draft.place_of_move hrequirement (Draft.move_applyTransaction _ tx count) hinfo' with
        ⟨drafted, hdrafted, hsame⟩ | ⟨-, hdisplaced⟩
      · obtain ⟨info, hinfo, hbefore⟩ := ih (Nat.le_of_lt hcount) hdrafted
        exact ⟨info, hinfo, NodeInfo.Frame.trans hbefore hsame⟩
      · exact absurd (hdisplaced (h.active count (Nat.le_of_lt hcount))) (h.placed count tx htx)

/-- A node that a block leaves undisturbed, and does not pay, is where it was. -/
theorem sameRank_after (hrequirement : 0 < a.ctx.rules.stakingRequirement)
    (h : a.Undisturbed key) (hwinner : a.block.minerTx.winner?.getD 0 ≠ key) {outcome : Outcome}
    (happly : a.before.apply a.ctx a.block a.txs = .ok (a.after, outcome))
    (hinfo' : a.after.info? key = some info') :
    ∃ info, a.before.info? key = some info ∧ info.SameRank info' := by
  obtain ⟨-, -, quorums, -, hafter⟩ := Registry.apply_eq_ok_iff.1 happly
  rw [hafter] at hinfo'
  obtain ⟨drafted, hdrafted, hsame⟩ :=
    a.before.keepsRank_settled a.ctx a.block a.txs key info' hinfo'
  rw [← a.draftAt_length] at hdrafted
  obtain ⟨info, hinfo, hbefore⟩ := h.sameRank_draftAt hrequirement hwinner (Nat.le_refl _) hdrafted
  exact ⟨info, hinfo, NodeInfo.Frame.trans hbefore hsame⟩

theorem mem_active_after (h : a.Undisturbed key) {outcome : Outcome}
    (happly : a.before.apply a.ctx a.block a.txs = .ok (a.after, outcome)) :
    key ∈ a.after.active.keys := by
  rw [Registry.mem_active_of_apply happly, ← a.draftAt_length]
  exact h.active _ (Nat.le_refl _)

end Applied.Undisturbed

/-! ## The order of the queue -/

namespace Registry

instance : Std.TransCmp queueOrder :=
  inferInstanceAs (Std.TransCmp (compareLex
    (compareLex (compareOn fun n : PublicKey × NodeInfo => n.2.lastRewardHeight)
      (compareOn fun n => n.2.lastRewardIndex)) (compareOn (·.1))))

variable {r : Registry} {m n : PublicKey × NodeInfo}

/-- The active nodes that are ahead of a node in the reward queue. -/
def ahead (r : Registry) (n : PublicKey × NodeInfo) : NodeList :=
  r.active.filter fun m => (queueOrder m n).isLT

theorem queueOrder_total (a b : PublicKey × NodeInfo) :
    ((queueOrder a b).isLE || (queueOrder b a).isLE) = true := by
  rw [show queueOrder b a = (queueOrder a b).swap from Std.OrientedCmp.eq_swap]
  cases queueOrder a b <;> rfl

/-- The leader is an active node with nobody ahead of it. -/
theorem exists_leader (hn : n ∈ r.active) :
    ∃ first ∈ r.active, r.leader.key = first.1 ∧ (queueOrder first n).isLE = true := by
  have hperm : r.rewardQueue.Perm r.active := List.mergeSort_perm _ _
  have hsorted : r.rewardQueue.Pairwise fun a b => (queueOrder a b).isLE = true :=
    List.pairwise_mergeSort (fun _ _ _ => Std.TransCmp.isLE_trans) queueOrder_total _
  have hmem := hperm.mem_iff.2 hn
  unfold leader
  cases hqueue : r.rewardQueue with
  | nil =>
      rw [hqueue] at hmem
      cases hmem
  | cons first rest =>
      rw [hqueue] at hmem hsorted hperm
      refine ⟨first, hperm.mem_iff.1 List.mem_cons_self, rfl, ?_⟩
      rcases List.mem_cons.1 hmem with rfl | hmem
      · rw [show queueOrder n n = .eq from Std.ReflCmp.compare_self]
        rfl
      · exact (List.pairwise_cons.1 hsorted).1 n hmem

/-- A node that nobody else precedes is the leader. -/
theorem leader_key_eq (hn : n ∈ r.active)
    (hfirst : ∀ m ∈ r.active, (queueOrder m n).isLE = true → m.1 = n.1) :
    r.leader.key = n.1 := by
  obtain ⟨first, hmem, hkey, hle⟩ := exists_leader hn
  exact hkey.trans (hfirst first hmem hle)

theorem lastRewardHeight_le_of_isLT (h : (queueOrder m n).isLT = true) :
    m.2.lastRewardHeight ≤ n.2.lastRewardHeight := by
  rcases Ordering.then_eq_lt.1 (Ordering.isLT_iff_eq_lt.1 h) with hlt | ⟨heq, -⟩
  · rcases Ordering.then_eq_lt.1 hlt with hlt | ⟨heq, -⟩
    · exact Nat.le_of_lt (Nat.compare_eq_lt.1 hlt)
    · exact Nat.le_of_eq (Nat.compare_eq_eq.1 heq)
  · exact Nat.le_of_eq (Nat.compare_eq_eq.1 (Ordering.then_eq_eq.1 heq).1)

theorem queueOrder_congr {key other : PublicKey} {info info' held held' : NodeInfo}
    (h : info.SameRank info') (hheld : held.SameRank held') :
    queueOrder (key, info') (other, held') = queueOrder (key, info) (other, held) := by
  unfold queueOrder
  rw [h.height, h.index, hheld.height, hheld.index]

/-- Nodes of one place in the queue have one key. -/
theorem isLT_of_isLE (h : (queueOrder m n).isLE = true) (hne : m.1 ≠ n.1) :
    (queueOrder m n).isLT = true := by
  cases horder : queueOrder m n with
  | lt => rfl
  | eq => exact absurd (Std.LawfulEqCmp.eq_of_compare (Ordering.then_eq_eq.1 horder).2) hne
  | gt =>
      rw [horder] at h
      cases h

theorem SameButQuorums.ahead {r' : Registry} (h : r.SameButQuorums r')
    (n : PublicKey × NodeInfo) : r'.ahead n = r.ahead n := by
  unfold Registry.ahead
  rw [h.active]

theorem mem_active_iff {key : PublicKey} {info : NodeInfo} :
    (key, info) ∈ r.active ↔ r.info? key = some info ∧ info.isActive = true := by
  unfold active select info?
  rw [List.mem_filter, SortedMap.get?_eq_some_iff]

end Registry

/-! ## Paid in turn -/

section Waiting

variable {a : Applied} {key : PublicKey} {info info' : NodeInfo} {outcome : Outcome}

/-- Nobody gets in ahead of a node that a block leaves undisturbed: those ahead of it after the
block were ahead of it before, and the leader, who has been paid, is not among them. -/
theorem Applied.ahead_after (hrequirement : 0 < a.ctx.rules.stakingRequirement)
    (hby : a.before.Every fun info => info.lastRewardHeight ≤ a.before.height)
    (happly : a.before.apply a.ctx a.block a.txs = .ok (a.after, outcome))
    (hleader : a.block.minerTx.winner? = some a.before.leader.key)
    (hinfo : a.before.info? key = some info) (hsame : info.SameRank info') :
    ∀ other ∈ (a.after.ahead (key, info')).keys,
      other ∈ (a.before.ahead (key, info)).keys ∧ other ≠ a.before.leader.key := by
  intro other hother
  obtain ⟨⟨_, held'⟩, hahead, rfl⟩ := List.mem_map.1 hother
  obtain ⟨hactive', hlt'⟩ := List.mem_filter.1 hahead
  obtain ⟨hheld', hup'⟩ := Registry.mem_active_iff.1 hactive'
  -- The block puts nobody as far forward as the node stands.
  have hearly : held'.lastRewardHeight < a.block.height := by
    have hle : held'.lastRewardHeight ≤ info'.lastRewardHeight :=
      Registry.lastRewardHeight_le_of_isLT hlt'
    have hheight := Registry.height_before_apply happly
    have hpast : info.lastRewardHeight ≤ a.before.height := hby key info hinfo
    rw [hsame.height] at hle
    omega
  constructor
  · rcases Registry.keepsQueue_of_apply hrequirement happly _ held' hheld' with
      hplaced | ⟨held, hheld, hstood⟩
    · omega
    · refine List.mem_map.2 ⟨(_, held), List.mem_filter.2
        ⟨Registry.mem_active_iff.2 ⟨hheld, hstood.active hup'⟩, ?_⟩, rfl⟩
      rw [← Registry.queueOrder_congr hstood hsame]
      exact hlt'
  · rintro rfl
    have hplaced := Registry.lastRewardHeight_of_winner hrequirement happly hleader hheld'
    omega

/-- With every block that pays another node, one node less is ahead. -/
theorem Applied.length_ahead_lt (hrequirement : 0 < a.ctx.rules.stakingRequirement)
    (hby : a.before.Every fun info => info.lastRewardHeight ≤ a.before.height)
    (happly : a.before.apply a.ctx a.block a.txs = .ok (a.after, outcome))
    (hleader : a.block.minerTx.winner? = some a.before.leader.key)
    (hinfo : a.before.info? key = some info) (hactive : info.isActive = true)
    (hsame : info.SameRank info') (hother : a.before.leader.key ≠ key) :
    (a.after.ahead (key, info')).length < (a.before.ahead (key, info)).length := by
  obtain ⟨first, hfirst, hkey, hle⟩ :=
    Registry.exists_leader (Registry.mem_active_iff.2 ⟨hinfo, hactive⟩)
  have hahead : a.before.leader.key ∈ (a.before.ahead (key, info)).keys := by
    have hlt := Registry.isLT_of_isLE hle (hkey ▸ hother)
    exact List.mem_map.2 ⟨first, List.mem_filter.2 ⟨hfirst, hlt⟩, hkey.symm⟩
  have hrest := a.ahead_after hrequirement hby happly hleader hinfo hsame
  have hnodup : (a.after.ahead (key, info')).keys.Nodup :=
    (Registry.nodup_keys_select a.after _).sublist (NodeList.keys_sublist List.filter_sublist)
  have hall : (a.before.leader.key :: (a.after.ahead (key, info')).keys).Subperm
      (a.before.ahead (key, info)).keys := by
    refine List.subperm_of_subset (List.nodup_cons.2 ⟨fun hmem => (hrest _ hmem).2 rfl, hnodup⟩) ?_
    intro other hmem
    rcases List.mem_cons.1 hmem with rfl | hmem
    · exact hahead
    · exact (hrest other hmem).1
  have hlength := hall.length_le
  rw [List.length_cons, NodeList.length_keys, NodeList.length_keys] at hlength
  exact hlength

end Waiting

namespace Registry

/-- Whoever stands behind fewer nodes than blocks follow is paid by one of them. -/
theorem Row.exists_paid_of_lt {r : Registry} {row : List Applied} (hrow : Row r row)
    (hby : r.Every fun info => info.lastRewardHeight ≤ r.height)
    (hrequirement : ∀ a ∈ row, 0 < a.ctx.rules.stakingRequirement)
    (hleader : ∀ a ∈ row, a.block.minerTx.winner? = some a.before.leader.key) {key : PublicKey}
    (hundisturbed : ∀ a ∈ row, a.Undisturbed key) {info : NodeInfo}
    (hinfo : r.info? key = some info) (hactive : info.isActive = true)
    (hlength : (r.ahead (key, info)).length < row.length) :
    ∃ a ∈ row, a.block.minerTx.winner? = some key := by
  -- Over the blocks: either this one pays the node, or there are fewer nodes ahead of it after.
  induction hrow generalizing info with
  | nil => cases hlength
  | @cons a row outcome happly _ ih =>
      have hrequired := hrequirement a List.mem_cons_self
      have hdeclared := hleader a List.mem_cons_self
      have hquiet := hundisturbed a List.mem_cons_self
      by_cases hother : a.before.leader.key = key
      · exact ⟨a, List.mem_cons_self, hother ▸ hdeclared⟩
      · have hwinner : a.block.minerTx.winner?.getD 0 ≠ key := by
          rw [hdeclared]
          exact hother
        obtain ⟨info', hinfo', hactive'⟩ :=
          (Option.any_eq_true _ _).1 (mem_keys_select.1 (hquiet.mem_active_after happly))
        obtain ⟨old, hold, hsame⟩ := hquiet.sameRank_after hrequired hwinner happly hinfo'
        cases hold.symm.trans hinfo
        have hfewer := a.length_ahead_lt hrequired hby happly hdeclared hinfo hactive hsame hother
        obtain ⟨paying, hpaying, hpaid⟩ := ih (every_paid_by_now hrequired hby happly)
          (fun b hb => hrequirement b (List.mem_cons_of_mem _ hb))
          (fun b hb => hleader b (List.mem_cons_of_mem _ hb))
          (fun b hb => hundisturbed b (List.mem_cons_of_mem _ hb)) hinfo' hactive'
          (Nat.lt_of_lt_of_le hfewer (Nat.le_of_lt_succ hlength))
        exact ⟨paying, List.mem_cons_of_mem _ hpaying, hpaid⟩

/-- **Nobody starves**: an active node of a registry that arises under a positive requirement is
the winner of one of the next blocks, one more than there are active nodes ahead of it, whatever
transactions these blocks hold, if each declares the leader as its winner and leaves the node
undisturbed. -/
theorem Row.exists_paid {r : Registry}
    (hr : Arises (fun ctx _ _ => 0 < ctx.rules.stakingRequirement) r) {row : List Applied}
    (hrow : Row r row) (hrequirement : ∀ a ∈ row, 0 < a.ctx.rules.stakingRequirement)
    (hleader : ∀ a ∈ row, a.block.minerTx.winner? = some a.before.leader.key) {key : PublicKey}
    {info : NodeInfo} (hinfo : r.info? key = some info) (hactive : info.isActive = true)
    (hundisturbed : ∀ a ∈ row, a.Undisturbed key)
    (hlength : row.length = (r.ahead (key, info)).length + 1) :
    ∃ a ∈ row, a.block.minerTx.winner? = some key := by
  have hby : r.Every fun info => info.lastRewardHeight ≤ r.height :=
    hr.induction (I := fun r => r.Every fun info => info.lastRewardHeight ≤ r.height)
      (fun height => .new height) every_paid_by_now
  exact hrow.exists_paid_of_lt hby hrequirement hleader hundisturbed hinfo hactive
    (hlength ▸ Nat.lt_succ_self _)

/-- Two nodes that have just been registered. -/
def pair : Registry :=
  (new 29).settled (.bare (new 29)) (.plain 30 .v21) [.registering 1, .registering 2]

/-- The two nodes after a block that pays the first of them and registers a third. -/
def trio : Registry :=
  pair.settled (.bare (new 29)) (.declaring 31 .v21 (.writing 1)) [.registering 3]

theorem leader_pair : pair.leader.key = .writing 1 := by
  obtain ⟨n, hn, hkey, hfirst⟩ : ∃ n ∈ pair.active, n.1 = .writing 1 ∧
      ∀ m ∈ pair.active, (queueOrder m n).isLE = true → m.1 = n.1 := by decide +kernel
  exact hkey ▸ leader_key_eq hn hfirst

theorem leader_trio : trio.leader.key = .writing 2 := by
  obtain ⟨n, hn, hkey, hfirst⟩ : ∃ n ∈ trio.active, n.1 = .writing 2 ∧
      ∀ m ∈ trio.active, (queueOrder m n).isLE = true → m.1 = n.1 := by decide +kernel
  exact hkey ▸ leader_key_eq hn hfirst

theorem active_draft_pair : ∀ count ≤ 1, .writing 2 ∈ (pair.draft (.bare (new 29))
    (.declaring 31 .v21 (.writing 1)) ([.registering 3].take count)).registry.active.keys := by
  decide +kernel

theorem active_draft_trio : .writing 2 ∈ (trio.draft (.bare (new 29))
    (.declaring 32 .v21 (.writing 2)) []).registry.active.keys := by
  decide +kernel

theorem ahead_pair : ∃ info, pair.info? (.writing 2) = some info ∧ info.isActive = true ∧
    (pair.ahead (.writing 2, info)).length = 1 := by
  refine ⟨(pair.info? (.writing 2)).getD default, ?_, ?_, ?_⟩
  all_goals decide +kernel

theorem undisturbed_pair {a : Applied} (hbefore : pair.SameButQuorums a.before)
    (hctx : a.ctx = .bare (new 29)) (hblock : a.block = .declaring 31 .v21 (.writing 1))
    (htxs : a.txs = [.registering 3]) : a.Undisturbed (.writing 2) := by
  constructor
  · intro count hcount
    rw [htxs] at hcount
    rw [Applied.draftAt, hbefore.draft_eq, hctx, hblock, htxs]
    exact active_draft_pair count hcount
  · intro i tx htx hdisplaced
    rw [htxs] at htx
    obtain ⟨rfl, rfl⟩ : i = 0 ∧ tx = .registering 3 := by
      cases i with
      | zero => exact ⟨rfl, (Option.some.inj htx).symm⟩
      | succ i => cases htx
    cases hdisplaced with
    | registered created =>
        -- The transaction creates the entry of the third node, whatever the draft.
        have hthird : (a.draftAt 0).created? a.ctx a.block 0 (.registering 3) =
            some (.writing 3, .bridge) := by
          have hbridged : Draft.bridged? (.bare (new 29)) (.declaring 31 .v21 (.writing 1)) 0
              (.registering 3) = some (.writing 3, .bridge) := by decide +kernel
          rw [hctx, hblock]
          exact hbridged
        rw [hthird] at created
        cases created
    | penalised kind => cases kind

/-- The second of two nodes has the first ahead of it, and is paid in the next block but one at
the latest. -/
theorem Row.exists_paid_pair : ∃ (r : Registry) (row : List Applied) (info : NodeInfo),
    Row r row ∧ row.length = 2 ∧ (∀ a ∈ row, a.Undisturbed (.writing 2)) ∧
      r.info? (.writing 2) = some info ∧ (r.ahead (.writing 2, info)).length = 1 ∧
      ∃ a ∈ row, a.block.minerTx.winner? = some (.writing 2) := by
  obtain ⟨r, entered, hentered, -⟩ := exists_apply_eq_ok (.bare (new 29))
    [.registering 1, .registering 2]
    (show (new 29).height + 1 = (Block.plain 30 .v21).height from rfl)
  have hr : pair.SameButQuorums r := sameButQuorums_of_apply hentered
  obtain ⟨s, outcome, hfirst, -⟩ := exists_apply_eq_ok (.bare (new 29)) [.registering 3]
    (show r.height + 1 = (Block.declaring 31 .v21 (.writing 1)).height from
      congrArg (· + 1) (height_of_apply hentered))
  have hs : trio.SameButQuorums s := by
    have hsettled := sameButQuorums_of_apply hfirst
    rwa [hr.settled_eq] at hsettled
  obtain ⟨t, outcome', hsecond, -⟩ := exists_apply_eq_ok (.bare (new 29)) []
    (show s.height + 1 = (Block.declaring 32 .v21 (.writing 2)).height from
      congrArg (· + 1) (height_of_apply hfirst))
  obtain ⟨info, hinfo, hactive, hahead⟩ := ahead_pair
  let first : Applied := ⟨.bare (new 29), .declaring 31 .v21 (.writing 1), [.registering 3], r, s⟩
  let second : Applied := ⟨.bare (new 29), .declaring 32 .v21 (.writing 2), [], s, t⟩
  have hrest : Row s [second] := .cons (a := second) hsecond (.nil t)
  have hrow : Row r [first, second] := .cons (a := first) hfirst hrest
  have hquiet : ∀ a ∈ [first, second], a.Undisturbed (.writing 2) := by
    refine List.forall_mem_cons.2 ⟨undisturbed_pair hr rfl rfl rfl,
      List.forall_mem_singleton.2 ⟨fun count hcount => ?_, nofun⟩⟩
    rw [Applied.draftAt, hs.draft_eq, List.take_of_length_le (Nat.zero_le _)]
    exact active_draft_trio
  have hleader : ∀ a ∈ [first, second], a.block.minerTx.winner? = some a.before.leader.key := by
    refine List.forall_mem_cons.2 ⟨?_, List.forall_mem_singleton.2 ?_⟩
    · rw [hr.leader, leader_pair]
      rfl
    · rw [hs.leader, leader_trio]
      rfl
  have hpositive : 0 < (Context.bare (new 29)).rules.stakingRequirement := by decide
  have hrequirement : ∀ a ∈ [first, second], 0 < a.ctx.rules.stakingRequirement :=
    List.forall_mem_cons.2 ⟨hpositive, List.forall_mem_singleton.2 hpositive⟩
  have hinfo' : r.info? (.writing 2) = some info := (hr.info?_eq _).trans hinfo
  have hahead' : (r.ahead (.writing 2, info)).length = 1 := by rw [hr.ahead, hahead]
  refine ⟨r, [first, second], info, hrow, rfl, hquiet, hinfo', hahead', ?_⟩
  exact hrow.exists_paid ⟨29, .single ⟨_, _, _, _, hpositive, hentered⟩⟩ hrequirement hleader hinfo'
    hactive hquiet (by rw [hahead']; rfl)

end Registry

end StakeRegistry
