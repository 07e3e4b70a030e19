import StakeRegistry.Proofs.Quorum.Drawing

/-!
# The quorums of a block

The draws at the end of a block cannot fail: the nodes that stand to be drawn have one entry
each. So a block that comes next always applies, and the quorums that it leaves behind are
those that are due at its height, with as many members as they should have
(`Registry.QuorumsFormed`). Main statements:

* `drawQuorums_eq_ok`: the quorums of a registry can always be drawn;
* `Registry.exists_apply_eq_ok`: a block that comes next applies and leaves well formed quorums.
-/

set_option autoImplicit false

namespace StakeRegistry

/-! ## Quorums that are drawn after the transactions -/

/-- The quorums that are drawn after the transactions of a block. Those that are not due stay
what they were. -/
structure Quorums.Drawn (before qs : Quorums) (fork : HardFork) (height : Nat)
    (active decommissioned : List PublicKey) : Prop where
  obligations : ∃ q, qs.obligations = some q ∧ q.IsObligations active decommissioned
  checkpointing :
    if HardFork.checkpointing ≤ fork ∧ (height + reorgSafetyBuffer) % checkpointInterval = 0 then
      ∃ q, qs.checkpointing = some q ∧ q.IsCheckpointing active decommissioned
    else qs.checkpointing = before.checkpointing
  blink :
    if HardFork.blink ≤ fork ∧ height % blinkInterval = 0 then
      ∃ q, qs.blink = some q ∧ q.IsBlink active
    else qs.blink = before.blink

/-- Every quorum that is due can be drawn from nodes that have one entry each. -/
theorem drawQuorums_eq_ok {r : Registry} {active : NodeList} (network : Network)
    (fork : HardFork)
    (hdistinct : (NodeList.keys (active ++
      if HardFork.checkpointing ≤ fork then r.decommissioned else [])).Nodup) :
    ∃ qs, drawQuorums r active network fork = .ok qs ∧
      r.quorums.Drawn qs fork r.height active.keys
        (NodeList.keys (if HardFork.checkpointing ≤ fork then r.decommissioned else [])) := by
  unfold drawQuorums
  generalize (if HardFork.checkpointing ≤ fork then r.decommissioned else []) = decommissioned
    at hdistinct ⊢
  dsimp only
  have hactive : active.keys.Nodup := by
    rw [NodeList.keys_append] at hdistinct
    exact hdistinct.sublist (List.sublist_append_left _ _)
  obtain ⟨obligations, hobligations, hobligationsFormed⟩ :=
    drawObligations_eq_ok fork r.blockHash hdistinct
  obtain ⟨checkpointing, hcheckpointing, hcheckpointingFormed⟩ :=
    drawCheckpointing_eq_ok fork r.blockHash network r.height hdistinct
  obtain ⟨blink, hblink, hblinkFormed⟩ := drawBlink_eq_ok fork r.blockHash r.height hactive
  rw [hobligations, hcheckpointing, hblink]
  refine ⟨{ r.quorums with
    obligations := some obligations
    checkpointing :=
      if HardFork.checkpointing ≤ fork && drawsCheckpointing r.height then some checkpointing
      else r.quorums.checkpointing
    blink :=
      if HardFork.blink ≤ fork && drawsBlink r.height then some blink else r.quorums.blink },
    ?_, ⟨obligations, rfl, hobligationsFormed⟩, ?_, ?_⟩
  · -- Whatever is due, all draws on the way have succeeded.
    split <;> split <;> rfl
  · simp only [drawsCheckpointing, Bool.and_eq_true, decide_eq_true_eq, beq_iff_eq]
    split
    · exact ⟨checkpointing, rfl, hcheckpointingFormed⟩
    · rfl
  · simp only [drawsBlink, Bool.and_eq_true, decide_eq_true_eq, beq_iff_eq]
    split
    · exact ⟨blink, rfl, hblinkFormed⟩
    · rfl

/-- A checkpointing quorum that is due is the one that is drawn. -/
theorem checkpointing_of_drawQuorums {r : Registry} {active : NodeList} {network : Network}
    {fork : HardFork} {qs : Quorums} (h : drawQuorums r active network fork = .ok qs)
    (hfork : HardFork.checkpointing ≤ fork) (hdue : drawsCheckpointing r.height = true) :
    ∃ q, drawCheckpointing fork network r.height r.blockHash active r.decommissioned = .ok q ∧
      qs.checkpointing = some q := by
  unfold drawQuorums at h
  rw [if_pos hfork] at h
  obtain ⟨obligations, -, h⟩ := bind_eq_ok_iff.1 h
  dsimp only at h
  rw [if_pos (by simp [hfork, hdue])] at h
  cases hq : drawCheckpointing fork network r.height r.blockHash active r.decommissioned with
  | error e =>
      rw [hq] at h
      cases h
  | ok q =>
      rw [hq] at h
      obtain ⟨checkpointing, hchosen, h⟩ := bind_eq_ok_iff.1 h
      cases hchosen
      refine ⟨q, rfl, ?_⟩
      -- The draw that follows does not matter.
      split at h
      all_goals
        obtain ⟨blink, -, h⟩ := bind_eq_ok_iff.1 h
        cases h
        rfl

/-! ## The quorums of a block -/

/-- What holds of the quorums that a block leaves behind on top of a registry: those that are
due are there, no others, and each has the members that it should have. -/
structure Registry.QuorumsFormed (r : Registry) (block : Block) (next : Registry) : Prop where
  obligations : ∃ q, next.quorums.obligations = some q ∧
    q.IsObligations next.active.keys
      (NodeList.keys (if HardFork.checkpointing ≤ block.fork then next.decommissioned else []))
  checkpointing_due : next.quorums.checkpointing.isSome = true ↔
    HardFork.checkpointing ≤ block.fork ∧
      (block.height + reorgSafetyBuffer) % checkpointInterval = 0
  checkpointing : ∀ q, next.quorums.checkpointing = some q →
    q.IsCheckpointing next.active.keys next.decommissioned.keys
  blink_due : next.quorums.blink.isSome = true ↔
    HardFork.blink ≤ block.fork ∧ block.height % blinkInterval = 0
  blink : ∀ q, next.quorums.blink = some q → q.IsBlink next.active.keys
  /-- A Pulse quorum is one of the nodes that were active before the block. -/
  pulse : ∀ q, next.quorums.pulse = some q →
    HardFork.pulse ≤ block.fork ∧ q.IsPulse r.active.keys

/-- What is drawn when it is due, and is not there otherwise. -/
theorem whenDue {due : Prop} [Decidable due] {drawn : Option Quorum} {p : Quorum → Prop}
    (h : if due then ∃ q, drawn = some q ∧ p q else drawn = none) :
    (drawn.isSome = true ↔ due) ∧ ∀ q, drawn = some q → p q := by
  split at h
  · rename_i hdue
    obtain ⟨q, rfl, hq⟩ := h
    exact ⟨iff_of_true rfl hdue, fun _ hsome => Option.some.inj hsome ▸ hq⟩
  · rename_i hdue
    subst h
    exact ⟨iff_of_false (by simp) hdue, fun _ hsome => nomatch hsome⟩

section Members

variable {q : Quorum} {active active' decommissioned : List PublicKey}

/-- The order in which active nodes are listed does not matter. -/
theorem Quorum.IsObligations.of_perm (h : q.IsObligations active decommissioned)
    (hperm : active.Perm active') : q.IsObligations active' decommissioned := by
  obtain ⟨hvalidators, hworkers, hdistinct, hactive, hknown⟩ := h
  rw [hperm.length_eq] at hvalidators hworkers
  exact ⟨hvalidators, hworkers, hdistinct, fun key hkey => hperm.mem_iff.1 (hactive key hkey),
    fun key hkey => (hknown key hkey).imp_left hperm.mem_iff.1⟩

theorem Quorum.IsCheckpointing.of_perm (h : q.IsCheckpointing active decommissioned)
    (hperm : active.Perm active') : q.IsCheckpointing active' decommissioned :=
  ⟨h.validators_length, h.distinct,
    fun key hkey => (h.validators_known key hkey).imp_left hperm.mem_iff.1, h.workers⟩

theorem Quorum.IsBlink.of_perm (h : q.IsBlink active) (hperm : active.Perm active') :
    q.IsBlink active' :=
  ⟨h.validators_length, h.distinct,
    fun key hkey => hperm.mem_iff.1 (h.validators_active key hkey), h.workers⟩

end Members

namespace Registry

/-- A Pulse quorum is formed at its fork only, from the nodes active then. -/
theorem isPulse_formPulseQuorum {r : Registry} {ctx : Context} {block : Block}
    {winner : PublicKey} (hnone : r.quorums.pulse = none) {q : Quorum}
    (hq : (r.formPulseQuorum ctx block winner).quorums.pulse = some q) :
    HardFork.pulse ≤ block.fork ∧ q.IsPulse r.active.keys := by
  unfold formPulseQuorum at hq
  split at hq
  · rw [hnone] at hq
    cases hq
  · rename_i hfork
    dsimp only at hq
    split at hq
    · rename_i hcomplete
      cases hq
      exact ⟨HardFork.not_lt.1 hfork, isPulse_of_pulseQuorum (nodup_keys_select r _) hcomplete⟩
    · rw [hnone] at hq
      cases hq

/-- No quorum of another kind is formed with the Pulse quorum. -/
theorem others_formPulseQuorum (r : Registry) (ctx : Context) (block : Block)
    (winner : PublicKey) :
    (r.formPulseQuorum ctx block winner).quorums.checkpointing = r.quorums.checkpointing ∧
      (r.formPulseQuorum ctx block winner).quorums.blink = r.quorums.blink := by
  have hnoted := fun height validators => (SamePlace.noteTurns r height validators).quorums
  unfold formPulseQuorum
  split
  · exact ⟨rfl, rfl⟩
  · dsimp only
    split
    · rw [hnoted]
      exact ⟨rfl, rfl⟩
    · exact ⟨rfl, rfl⟩

/-- New swarms leave the nodes to be drawn as they are: those that are active after the
transactions are active in the settled registry. -/
theorem active_settled_perm (r : Registry) (ctx : Context) (block : Block)
    (txs : List Transaction) :
    (r.draft ctx block txs).registry.active.keys.Perm (r.settled ctx block txs).active.keys := by
  unfold settled
  dsimp only
  split
  · exact (SameActive.rebalanceSwarms _ block).keys_perm.symm
  · exact .refl _

/-- The nodes that quorums are drawn from have one entry each. -/
theorem nodup_candidates (r : Registry) (ctx : Context) (block : Block)
    (txs : List Transaction) :
    (NodeList.keys ((r.draft ctx block txs).registry.active ++
      if HardFork.checkpointing ≤ block.fork then (r.settled ctx block txs).decommissioned
      else [])).Nodup := by
  have hperm := active_settled_perm r ctx block txs
  rw [NodeList.keys_append]
  refine List.nodup_append.2 ⟨nodup_keys_select _ _, ?_, fun key hactive other hother => ?_⟩
  · split
    · exact nodup_keys_select _ _
    · exact List.nodup_nil
  · rintro rfl
    split at hother
    · exact disjoint_active_decommissioned _ key (hperm.mem_iff.1 hactive) hother
    · cases hother

/-- A block that comes next applies, and leaves well formed quorums. -/
theorem exists_apply_eq_ok {r : Registry} (ctx : Context) {block : Block}
    (txs : List Transaction) (hheight : r.height + 1 = block.height) :
    ∃ next outcome, r.apply ctx block txs = .ok (next, outcome) ∧
      r.QuorumsFormed block next := by
  obtain ⟨qs, hdrawn, hqs⟩ := drawQuorums_eq_ok ctx.rules.network block.fork
    (nodup_candidates r ctx block txs)
  have happly := apply_eq_ok_iff.2 ⟨hheight, rfl, qs, hdrawn, rfl⟩
  refine ⟨_, _, happly, ?_⟩
  have hsettled := samePlace_settled r ctx block txs
  have hopened := samePlace_opened r ctx block
  have hquorums := hsettled.quorums.trans hopened.quorums
  have hformed := others_formPulseQuorum (r.atBlock block) ctx block
    (block.minerTx.winner?.getD 0)
  have hblock : (r.settled ctx block txs).height = block.height :=
    (height_of_apply happly : Registry.height { r.settled ctx block txs with quorums := qs } = _)
  obtain ⟨⟨obligations, hobligations, hmembers⟩, hcheckpointing, hblink⟩ := hqs
  have hperm := active_settled_perm r ctx block txs
  -- A block starts without quorums, so one that is not due is not there.
  rw [hquorums, hformed.1, hblock] at hcheckpointing
  rw [hquorums, hformed.2, hblock] at hblink
  have hcheckpointing := whenDue hcheckpointing
  have hblink := whenDue hblink
  refine ⟨⟨obligations, hobligations, hmembers.of_perm hperm⟩, hcheckpointing.1, fun q hq => ?_,
    hblink.1, fun q hq => (hblink.2 q hq).of_perm hperm, fun q hq => ?_⟩
  · have hmembers := (hcheckpointing.2 q hq).of_perm hperm
    have hfork := (hcheckpointing.1.1 (Option.isSome_of_eq_some hq)).1
    rwa [if_pos hfork] at hmembers
  · have hpulse := pulse_of_drawQuorums hdrawn
    rw [hquorums] at hpulse
    exact isPulse_formPulseQuorum (r := r.atBlock block) rfl (hpulse.symm.trans hq)

/-- A registry after a block has well formed quorums. -/
theorem quorumsFormed_of_apply {r next : Registry} {ctx : Context} {block : Block}
    {txs : List Transaction} {outcome : Outcome} (h : r.apply ctx block txs = .ok (next, outcome)) :
    r.QuorumsFormed block next := by
  obtain ⟨next', outcome', happly, hformed⟩ := exists_apply_eq_ok ctx txs (height_before_apply h)
  cases h.symm.trans happly
  exact hformed

/-- The nodes that are active after a block are those that its transactions have left active. -/
theorem mem_active_of_apply {r next : Registry} {ctx : Context} {block : Block}
    {txs : List Transaction} {outcome : Outcome} (h : r.apply ctx block txs = .ok (next, outcome))
    {key : PublicKey} :
    key ∈ next.active.keys ↔ key ∈ (r.draft ctx block txs).registry.active.keys := by
  obtain ⟨-, -, quorums, -, rfl⟩ := apply_eq_ok_iff.1 h
  exact (active_settled_perm r ctx block txs).mem_iff.symm

/-- With more than ten active nodes, some node is tested by ten validators. -/
theorem QuorumsFormed.exists_worker {r next : Registry} {block : Block}
    (h : r.QuorumsFormed block next) (hmany : obligationsValidators < next.active.length) :
    ∃ q key, next.quorums.obligations = some q ∧ q.validators.length = obligationsValidators ∧
      q.workers[0]? = some key ∧
      (key ∈ next.active.keys ∨ key ∈ next.decommissioned.keys) := by
  obtain ⟨q, hq, hvalidators, hworkers, -, -, hknown⟩ := h.obligations
  rw [NodeList.length_keys] at hvalidators hworkers
  have hten : q.validators.length = obligationsValidators := by omega
  have hsome : 0 < q.workers.length := by
    have : 0 < testedMinimum := by decide
    omega
  refine ⟨q, q.workers[0], hq, hten, List.getElem?_eq_getElem hsome, ?_⟩
  refine (hknown _ (List.getElem_mem hsome)).imp_right fun hmem => ?_
  split at hmem
  · exact hmem
  · cases hmem

/-- With twenty active nodes or more, a checkpointing quorum that is due has members. -/
theorem checkpointing_of_apply {r next : Registry} {ctx : Context} {block : Block}
    {txs : List Transaction} {outcome : Outcome} (h : r.apply ctx block txs = .ok (next, outcome))
    (hfork : HardFork.checkpointing ≤ block.fork)
    (hdue : (block.height + reorgSafetyBuffer) % checkpointInterval = 0)
    (hmany : checkpointQuorumSize ≤ next.active.length) :
    ∃ q, next.quorums.checkpointing = some q ∧ q.validators.length = checkpointQuorumSize := by
  have hformed := quorumsFormed_of_apply h
  have hheight := height_of_apply h
  have hactive : next.active.length = (r.draft ctx block txs).registry.active.length := by
    rw [← NodeList.length_keys, ← NodeList.length_keys]
    exact (List.perm_ext_iff_of_nodup (nodup_keys_select _ _) (nodup_keys_select _ _)).2
      (fun _ => mem_active_of_apply h) |>.length_eq
  obtain ⟨-, -, quorums, hdrawn, rfl⟩ := apply_eq_ok_iff.1 h
  have hheight' : (r.settled ctx block txs).height = block.height := hheight
  obtain ⟨q, hq, hset⟩ := checkpointing_of_drawQuorums hdrawn hfork (by
    rw [hheight', drawsCheckpointing, hdue]
    rfl)
  refine ⟨q, hset, (hformed.checkpointing q hset).validators_length.resolve_left ?_⟩
  exact validators_ne_nil_of_drawCheckpointing _ _ (hactive ▸ hmany) hq

/-- Where there are no nodes, nobody is tested. -/
theorem QuorumsFormed.workers_eq_nil {r next : Registry} {block : Block}
    (h : r.QuorumsFormed block next) (hactive : next.active = []) (hdown : next.decommissioned = [])
    {q : Quorum} (hq : next.quorums.obligations = some q) : q.workers = [] := by
  obtain ⟨q', hq', -, hworkers, -⟩ := h.obligations
  cases hq.symm.trans hq'
  rw [hactive, hdown, ite_self] at hworkers
  exact List.eq_nil_of_length_eq_zero (by simpa [NodeList.keys] using hworkers)

end Registry

end StakeRegistry
