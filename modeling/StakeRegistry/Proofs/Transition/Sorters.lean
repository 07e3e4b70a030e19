import StakeRegistry.Proofs.Transition.Turns

/-!
# Who validated when

Every entry notes when its node last validated in a Pulse quorum, and at which position
(`PulseSorter`). A block notes this for the validators of its own quorum. Apart from that, an
entry keeps its note as long as it stays, and a new entry has none (`Draft.KeepsSorters`). Main
statements:

* `Registry.sorter_of_apply`: what a block notes;
* `Registry.Arises.validated_by_now`: no entry notes a height that is still to come.
-/

set_option autoImplicit false

namespace StakeRegistry

/-! ## Between forming the Pulse quorum and the end of a block -/

/-- Every entry of the second draft has its note from an entry of the first, or is new and has
none. Since infinite staking a new entry is listed as registered. -/
structure Draft.KeepsSorters (fork : HardFork) (d d' : Draft) : Prop where
  registered : ∀ key ∈ d.outcome.registered, key ∈ d'.outcome.registered
  entries : ∀ key info', d'.registry.info? key = some info' →
    (∃ info, d.registry.info? key = some info ∧ info'.pulseSorter = info.pulseSorter) ∨
      info'.pulseSorter = default ∧
        (HardFork.infiniteStaking ≤ fork → key ∈ d'.outcome.registered)

namespace Draft

namespace KeepsSorters

variable {fork : HardFork} {d d' d'' : Draft}

theorem of_keepsShares (h : d.registry.KeepsShares d'.registry)
    (hregistered : d'.outcome.registered = d.outcome.registered) : d.KeepsSorters fork d' := by
  refine ⟨fun key hkey => hregistered ▸ hkey, fun key info' hinfo' => .inl ?_⟩
  obtain ⟨info, hinfo, hsame⟩ := h key info' hinfo'
  exact ⟨info, hinfo, hsame.sorter⟩

theorem refl (d : Draft) : d.KeepsSorters fork d := of_keepsShares (.refl _) rfl

theorem trans (h : d.KeepsSorters fork d') (h' : d'.KeepsSorters fork d'') :
    d.KeepsSorters fork d'' := by
  refine ⟨fun key hkey => h'.registered key (h.registered key hkey), fun key info'' hinfo'' => ?_⟩
  rcases h'.entries key info'' hinfo'' with ⟨info', hinfo', hkept'⟩ | hnew
  · rcases h.entries key info' hinfo' with ⟨info, hinfo, hkept⟩ | ⟨hnone, hlisted⟩
    · exact .inl ⟨info, hinfo, hkept'.trans hkept⟩
    · exact .inr ⟨hkept'.trans hnone, fun hfork => h'.registered key (hlisted hfork)⟩
  · exact .inr hnew

/-- Replacing an entry by one with the same note. -/
theorem put {key : PublicKey} {info info' : NodeInfo} (hinfo : d.registry.info? key = some info)
    (hsame : info'.pulseSorter = info.pulseSorter)
    (hnodes : d'.registry = d.registry.put key info')
    (hregistered : d'.outcome.registered = d.outcome.registered) : d.KeepsSorters fork d' := by
  refine ⟨fun key hkey => hregistered ▸ hkey, fun other info'' h => .inl ?_⟩
  rw [hnodes, Registry.info?_put] at h
  split at h
  · rename_i hother
    cases h
    exact ⟨info, hother ▸ hinfo, hsame⟩
  · exact ⟨info'', h, rfl⟩

/-- Entering a node that has not validated. -/
theorem enter {key : PublicKey} {info : NodeInfo} (hnone : info.pulseSorter = default)
    (hnodes : d'.registry = d.registry.put key info)
    (hbefore : ∀ key ∈ d.outcome.registered, key ∈ d'.outcome.registered)
    (hlisted : HardFork.infiniteStaking ≤ fork → key ∈ d'.outcome.registered) :
    d.KeepsSorters fork d' := by
  refine ⟨hbefore, fun other info' h => ?_⟩
  rw [hnodes, Registry.info?_put] at h
  split at h
  · rename_i hother
    cases h
    exact .inr ⟨hnone, hother ▸ hlisted⟩
  · exact .inl ⟨info', h, rfl⟩

end KeepsSorters

variable {ctx : Context} {block : Block}

/-! ## Handlers -/

theorem sorter_of_registeredNode {place : BlockPlace} {tx : Transaction} {key : PublicKey}
    {info : NodeInfo} (h : registeredNode ctx.suite ctx.rules place tx = .ok (some (key, info))) :
    info.pulseSorter = default := by
  obtain ⟨reg, operator, value, others, -, -, -, -, rfl⟩ := registeredNode_eq_some h
  rfl

theorem keepsSorters_register (index : Nat) (tx : Transaction) (d : Draft) :
    d.KeepsSorters block.fork (d.register ctx block index tx) := by
  have hentered : ∀ (key : PublicKey) (info : NodeInfo), info.pulseSorter = default →
      d.KeepsSorters block.fork (d.enter block.fork key info) := by
    intro key info hnone
    refine .enter hnone rfl (fun other hother => ?_) fun hfork => ?_
    · unfold enter
      dsimp only
      split
      · exact List.mem_append_left _ hother
      · exact hother
    · unfold enter
      dsimp only
      rw [if_pos hfork]
      exact List.mem_append_right _ List.mem_cons_self
  unfold register
  split
  · exact .refl d
  · exact .refl d
  · rename_i key info hnode
    have hnone := sorter_of_registeredNode hnode
    split
    · exact hentered key info hnone
    · split
      · exact .refl d
      · rename_i renewed hrenewed
        refine hentered key renewed ?_
        unfold reregistered? at hrenewed
        split at hrenewed
        · cases hrenewed
        · cases hrenewed
          exact hnone

theorem sorter_creditStake (info : NodeInfo) (fork : HardFork) (height index : Nat)
    (stake : Stake) :
    (info.creditStake fork height index stake).pulseSorter = info.pulseSorter := by
  obtain ⟨_, _, _, _, heq⟩ := info.exists_creditStake_eq fork height index stake
  rw [heq]

theorem keepsSorters_contribute (index : Nat) (tx : Transaction) (d : Draft) :
    d.KeepsSorters block.fork (d.contribute ctx block index tx) := by
  unfold contribute
  split
  · exact .refl d
  · split
    · exact .refl d
    · rename_i info hinfo
      split
      · exact .put hinfo (sorter_creditStake info _ _ _ _) rfl rfl
      · exact .refl d

theorem keepsSorters_registerBridged (index : Nat) (tx : Transaction) (d : Draft) :
    d.KeepsSorters block.fork (d.registerBridged ctx block index tx) := by
  unfold registerBridged
  split
  · exact .refl d
  · rename_i key info hnode
    obtain ⟨reg, operator, -, -, rfl⟩ := bridgedNode_eq_ok hnode
    exact .enter rfl rfl (fun other hother => List.mem_append_left _ hother)
      fun _ => List.mem_append_right _ List.mem_cons_self

theorem registered_applyStateChange (tx : Transaction) (d : Draft) :
    (d.applyStateChange ctx block tx).outcome.registered = d.outcome.registered := by
  unfold applyStateChange
  split
  · rfl
  · split
    · rfl
    · split
      · rfl
      · unfold changeState
        split
        · rfl
        all_goals split <;> rfl

theorem registered_unlock (tx : Transaction) (d : Draft) :
    (d.unlock ctx block tx).outcome.registered = d.outcome.registered := by
  unfold unlock
  split
  · split
    · rfl
    · split <;> rfl
  · rfl

theorem registered_leave (tx : Transaction) (d : Draft) :
    (d.leave ctx block tx).outcome.registered = d.outcome.registered := by
  unfold leave
  split <;> rfl

theorem registered_exit (tx : Transaction) (d : Draft) :
    (d.exit ctx block tx).outcome.registered = d.outcome.registered := by
  unfold exit
  split
  · rfl
  · split
    · rfl
    · split <;> rfl

theorem registered_expel (tx : Transaction) (d : Draft) :
    (d.expel tx).outcome.registered = d.outcome.registered := by
  unfold expel
  split <;> rfl

/-- A transaction changes no notes. -/
theorem keepsSorters_applyTransaction (d : Draft) (tx : Transaction) (index : Nat) :
    d.KeepsSorters block.fork (d.applyTransaction ctx block tx index) := by
  unfold applyTransaction
  split
  · exact (keepsSorters_register index tx d).trans (keepsSorters_contribute index tx _)
  · split
    · exact .of_keepsShares (keepsShares_applyStateChange ctx block tx d)
        (registered_applyStateChange tx d)
    · exact .of_keepsShares (keepsShares_unlock ctx block tx d) (registered_unlock tx d)
    · exact keepsSorters_registerBridged index tx d
    · exact .of_keepsShares (keepsShares_leave ctx block tx d) (registered_leave tx d)
    · exact .of_keepsShares (keepsShares_exit ctx block tx d) (registered_exit tx d)
    · exact .of_keepsShares (keepsShares_expel tx d) (registered_expel tx d)
    · exact .refl d
    · exact .refl d

theorem keepsSorters_applyTransactions (txs : List Transaction) (d : Draft) :
    d.KeepsSorters block.fork (d.applyTransactions ctx block txs) :=
  applyTransactions_induction (P := d.KeepsSorters block.fork) (.refl d)
    fun d' tx index _ h => h.trans (keepsSorters_applyTransaction d' tx index)

end Draft

/-! ## One block -/

namespace Registry

theorem info?_modify (r : Registry) (key : PublicKey) (f : NodeInfo → NodeInfo)
    (key' : PublicKey) :
    (r.modify key f).info? key' = if key' = key then (r.info? key').map f else r.info? key' := by
  unfold Registry.modify info?
  split
  · rename_i info hinfo
    dsimp only
    rw [SortedMap.get?_insert]
    split
    · rename_i hkey
      rw [hkey, hinfo]
      rfl
    · rfl
  · rename_i hnone
    split
    · rename_i hkey
      rw [hkey, hnone]
      rfl
    · rfl

/-- The height of a quorum is noted for its validators, and for nobody else. -/
theorem sorter_of_noteTurns {r : Registry} {height : Nat} {validators : List PublicKey}
    {key : PublicKey} {info : NodeInfo}
    (h : (r.noteTurns height validators).info? key = some info) :
    ∃ old, r.info? key = some old ∧ (key ∈ validators → info.pulseSorter.lastHeight = height) ∧
      (key ∉ validators → info.pulseSorter = old.pulseSorter) := by
  unfold noteTurns at h
  have hkeys : validators.zipIdx.map (·.1) = validators := List.zipIdx_map_fst 0 validators
  rw [← hkeys]
  generalize validators.zipIdx = turns at h ⊢
  -- Over the validators in order: the note of one is overwritten at most by the same height.
  induction turns generalizing r with
  | nil => exact ⟨info, h, nofun, fun _ => rfl⟩
  | cons v turns ih =>
      obtain ⟨noted, hnoted, hlater, hkept⟩ := ih h
      rw [info?_modify] at hnoted
      rw [List.map_cons, List.mem_cons]
      split at hnoted
      · rename_i hkey
        obtain ⟨old, hold, rfl⟩ := Option.map_eq_some_iff.1 hnoted
        refine ⟨old, hold, fun _ => ?_, fun hnot => absurd (Or.inl hkey) hnot⟩
        by_cases hmem : key ∈ turns.map (·.1)
        · exact hlater hmem
        · rw [hkept hmem]
      · rename_i hkey
        exact ⟨noted, hnoted, fun hmem => hlater (hmem.resolve_left hkey),
          fun hnot => hkept fun hmem => hnot (.inr hmem)⟩

/-- A node is a validator of the Pulse quorum of a registry. -/
def Validates (r : Registry) (key : PublicKey) : Prop :=
  ∃ q, r.quorums.pulse = some q ∧ key ∈ q.validators

theorem not_validates_of_none {r : Registry} (h : r.quorums.pulse = none) (key : PublicKey) :
    ¬ r.Validates key := by
  rintro ⟨q, hq, -⟩
  rw [h] at hq
  cases hq

theorem sorter_of_formPulseQuorum {r : Registry} {ctx : Context} {block : Block}
    {winner key : PublicKey} {info : NodeInfo} (hnone : r.quorums.pulse = none)
    (h : (r.formPulseQuorum ctx block winner).info? key = some info) :
    ∃ old, r.info? key = some old ∧
      ((r.formPulseQuorum ctx block winner).Validates key →
        info.pulseSorter.lastHeight = block.height) ∧
      (¬ (r.formPulseQuorum ctx block winner).Validates key →
        info.pulseSorter = old.pulseSorter) := by
  have hquiet := not_validates_of_none hnone key
  unfold formPulseQuorum at h ⊢
  split at h
  · rename_i hfork
    rw [if_pos hfork]
    exact ⟨info, h, fun hvalidates => absurd hvalidates hquiet, fun _ => rfl⟩
  · rename_i hfork
    rw [if_neg hfork]
    dsimp only at h ⊢
    split at h
    · rename_i hcomplete
      obtain ⟨old, hold, hnoted, hkept⟩ := sorter_of_noteTurns h
      rw [if_pos hcomplete]
      refine ⟨old, hold, ?_, fun hnot => hkept fun hmem => hnot ⟨_, rfl, hmem⟩⟩
      rintro ⟨q, hq, hmem⟩
      cases hq
      exact hnoted hmem
    · rename_i hcomplete
      rw [if_neg hcomplete]
      exact ⟨info, h, fun hvalidates => absurd hvalidates hquiet, fun _ => rfl⟩

variable {r next : Registry} {ctx : Context} {block : Block} {txs : List Transaction}
  {outcome : Outcome}

/-- What a block notes: its height for the validators of its Pulse quorum, and nothing for other
nodes that stay. New nodes have no note. -/
theorem sorter_of_apply (h : r.apply ctx block txs = .ok (next, outcome)) {key : PublicKey}
    {info : NodeInfo} (hinfo : next.info? key = some info) :
    (info.pulseSorter = default ∧
      (HardFork.infiniteStaking ≤ block.fork → key ∈ outcome.registered)) ∨
    ∃ old, r.info? key = some old ∧
      (next.Validates key → info.pulseSorter.lastHeight = block.height) ∧
      (¬ next.Validates key → info.pulseSorter = old.pulseSorter) := by
  obtain ⟨-, rfl, quorums, hdrawn, rfl⟩ := apply_eq_ok_iff.1 h
  have hpulse := pulse_of_drawQuorums hdrawn
  rw [(samePlace_settled r ctx block txs).quorums, (samePlace_opened r ctx block).quorums] at hpulse
  -- From the end of the block back to its Pulse quorum.
  have hsettled : (r.draft ctx block txs).registry.KeepsShares
      { r.settled ctx block txs with quorums := quorums } :=
    (keepsShares_settled r ctx block txs).trans (.of_nodes rfl)
  obtain ⟨drafted, hdrafted, hsame⟩ := hsettled key info hinfo
  have htransactions : (r.opened ctx block).KeepsSorters block.fork (r.draft ctx block txs) :=
    Draft.keepsSorters_applyTransactions txs (r.opened ctx block)
  rcases htransactions.entries key drafted hdrafted with ⟨opened, hopened, hkept⟩ | ⟨hnew, hlisted⟩
  · obtain ⟨formed, hformed, hshare⟩ := keepsShares_opened r ctx block key opened hopened
    obtain ⟨old, hold, hnoted, hquiet⟩ :=
      sorter_of_formPulseQuorum (r := r.atBlock block) rfl hformed
    have hsorter : info.pulseSorter = formed.pulseSorter :=
      hsame.sorter.trans (hkept.trans hshare.sorter)
    unfold Validates at hnoted hquiet ⊢
    dsimp only
    rw [hpulse, hsorter]
    exact .inr ⟨old, hold, hnoted, hquiet⟩
  · exact .inl ⟨hsame.sorter.trans hnew, hlisted⟩

/-- No node has validated at a height that is still to come. -/
theorem Arises.validated_by_now {Allowed : Context → Block → List Transaction → Prop}
    (h : Arises Allowed r) : r.Every fun info => info.pulseSorter.lastHeight ≤ r.height := by
  refine h.induction (I := fun r => r.Every fun info => info.pulseSorter.lastHeight ≤ r.height)
    (fun height => .new height) ?_
  intro r next ctx block txs outcome _ hr happly key info hinfo
  have hheight := height_before_apply happly
  rw [height_of_apply happly]
  rcases sorter_of_apply happly hinfo with ⟨hnew, -⟩ | ⟨old, hold, hnoted, hquiet⟩
  · rw [hnew]
    exact Nat.zero_le _
  · have hbefore := hr key old hold
    by_cases hvalidates : next.Validates key
    · exact Nat.le_of_eq (hnoted hvalidates)
    · rw [hquiet hvalidates]
      exact Nat.le_trans hbefore (hheight ▸ Nat.le_succ _)

end Registry

end StakeRegistry
