import StakeRegistry.Proofs.Transition.Accounting
import StakeRegistry.Proofs.Transition.Agreement
import StakeRegistry.Proofs.Transition.Quorums
import StakeRegistry.Proofs.Verification.Votes

/-!
# What a state change does, and when

A state change touches one entry, that of the node which a quorum has voted on
(`Draft.applyStateChange_cases`). It takes effect exactly if a quorum carries the votes, the
node is registered, and the node's standing allows the change (`NodeInfo.standsFor`). The height
of the votes is held against the node's life by `NodeInfo.canTransition` only
(`NodeInfo.isTimely`), and no transaction asks that.
-/

set_option autoImplicit false

namespace StakeRegistry

/-! ## Votes -/

/-- A quorum that is found for a state change has voted for it. -/
theorem carriedBy_of_votingQuorum? {ctx : Context} {change : StateChange} {latest : Nat}
    {q : Quorum} (h : votingQuorum? ctx change latest = some q) :
    change.CarriedBy ctx.suite latest q := by
  unfold votingQuorum? at h
  split at h
  · cases h
  · obtain ⟨r, -, hr⟩ := List.exists_of_findSome?_eq_some h
    exact verifyStateChange_isOk_iff.1 (Option.filter_eq_some_iff.1 hr).2

/-- The node that the votes on a state change are about. -/
def votedNode? (ctx : Context) (change : StateChange) (latest : Nat) : Option PublicKey :=
  (votingQuorum? ctx change latest).bind (·.workers[change.index]?)

/-! ## One entry at most -/

/-- Ordinary stakes come in two kinds of transactions, whatever the fork. -/
theorem TxKind.ne_ofStakes {kind : TxKind} (h : kind ≠ .standard ∧ kind ≠ .stake)
    (fork : HardFork) : kind ≠ ofStakes fork := by
  unfold ofStakes
  split
  · exact h.2
  · exact h.1

namespace Draft

variable {ctx : Context} {block : Block} {tx : Transaction} {d : Draft}

/-- A transaction that carries a state change is applied as one at every fork. -/
theorem applyTransaction_of_stateChange (hkind : tx.kind = .stateChange) (index : Nat) :
    d.applyTransaction ctx block tx index = d.applyStateChange ctx block tx := by
  have hstakes : tx.kind ≠ TxKind.ofStakes block.fork :=
    TxKind.ne_ofStakes (by rw [hkind]; decide) _
  unfold applyTransaction
  rw [if_neg hstakes, hkind]

/-- A state change is applied to the node that the votes are about. -/
theorem applyStateChange_eq {change : StateChange} (hcarries : tx.stateChange? = some change) :
    d.applyStateChange ctx block tx =
      match votedNode? ctx change block.height with
      | none => d
      | some key =>
          match d.registry.info? key with
          | none => d
          | some info => d.changeState ctx block change key info := by
  unfold applyStateChange
  rw [hcarries]
  rfl

/-- A quorum has voted for the change that a transaction carries, on a node that is
registered. -/
structure Votes (ctx : Context) (block : Block) (tx : Transaction) (d : Draft)
    (change : StateChange) (q : Quorum) (key : PublicKey) (info : NodeInfo) : Prop where
  carries : tx.stateChange? = some change
  voted : votingQuorum? ctx change block.height = some q
  on : q.workers[change.index]? = some key
  registered : d.registry.info? key = some info

theorem Votes.applyStateChange_eq {change : StateChange} {q : Quorum} {key : PublicKey}
    {info : NodeInfo} (h : Votes ctx block tx d change q key info) :
    d.applyStateChange ctx block tx = d.changeState ctx block change key info := by
  unfold applyStateChange
  rw [h.carries]
  dsimp only
  rw [h.voted, Option.bind_some, h.on]
  dsimp only
  rw [h.registered]

/-- A state change does nothing, or it changes the state of a node that a quorum has voted
on. -/
theorem applyStateChange_cases (ctx : Context) (block : Block) (tx : Transaction) (d : Draft) :
    d.applyStateChange ctx block tx = d ∨
      ∃ change q key info, Votes ctx block tx d change q key info := by
  unfold applyStateChange
  split
  · exact Or.inl rfl
  · rename_i change hchange
    split
    · exact Or.inl rfl
    · rename_i key hkey
      split
      · exact Or.inl rfl
      · rename_i info hinfo
        obtain ⟨q, hq, hon⟩ := Option.bind_eq_some_iff.1 hkey
        exact Or.inr ⟨change, q, key, info, hchange, hq, hon, hinfo⟩

/-- Votes of a quorum that tests nobody change nothing. -/
theorem applyStateChange_of_untested {change : StateChange}
    (hcarries : tx.stateChange? = some change)
    (hnobody : ∀ q, votingQuorum? ctx change block.height = some q → q.workers = []) :
    d.applyStateChange ctx block tx = d := by
  refine (applyStateChange_cases ctx block tx d).resolve_right ?_
  rintro ⟨change', q, key, info, hvotes⟩
  obtain rfl : change = change' := Option.some.inj (hcarries.symm.trans hvotes.carries)
  have hon := hvotes.on
  rw [hnobody q hvotes.voted] at hon
  cases hon

/-- A node whose removal a quorum has voted for is gone. -/
theorem Votes.info?_of_deregister {change : StateChange} {q : Quorum} {key : PublicKey}
    {info : NodeInfo} (h : Votes ctx block tx d change q key info)
    (hkind : change.kind = .deregister) :
    (d.applyStateChange ctx block tx).registry.info? key = none := by
  rw [h.applyStateChange_eq]
  unfold changeState
  rw [hkind]
  show (d.registry.remove key).info? key = none
  rw [Registry.info?_remove, if_pos rfl]

/-- A change of one node's state leaves the entries of all others as they are. -/
theorem info?_changeState_of_ne (change : StateChange) {key key' : PublicKey} (info : NodeInfo)
    (hne : key' ≠ key) :
    (d.changeState ctx block change key info).registry.info? key' = d.registry.info? key' := by
  have hput : ∀ info : NodeInfo, (d.registry.put key info).info? key' = d.registry.info? key' :=
    fun info => by rw [Registry.info?_put, if_neg hne]
  unfold changeState
  split
  case h_1 =>
    show (d.registry.remove key).info? key' = d.registry.info? key'
    rw [Registry.info?_remove, if_neg hne]
  all_goals
    split
    · rfl
    · exact hput _

/-- The node whose entry a state change touches was voted on. -/
theorem votes_of_info?_ne {key : PublicKey}
    (h : (d.applyStateChange ctx block tx).registry.info? key ≠ d.registry.info? key) :
    ∃ change q info, Votes ctx block tx d change q key info := by
  rcases applyStateChange_cases ctx block tx d with hsame | ⟨change, q, key', info, hvotes⟩
  · rw [hsame] at h
    exact absurd rfl h
  · rw [hvotes.applyStateChange_eq] at h
    have hkey : key = key' :=
      Decidable.not_not.1 fun hne => h (info?_changeState_of_ne change info hne)
    subst hkey
    exact ⟨change, q, info, hvotes⟩

end Draft

namespace Registry

/-- A state change is applied to the draft that the transactions before it have left. -/
theorem draft_concat_of_stateChange (r : Registry) (ctx : Context) (block : Block)
    (txs : List Transaction) {tx : Transaction} (hkind : tx.kind = .stateChange) :
    r.draft ctx block (txs ++ [tx]) = (r.draft ctx block txs).applyStateChange ctx block tx := by
  rw [draft_concat]
  exact Draft.applyTransaction_of_stateChange hkind _

/-- A block whose last transaction is a removal takes the node that its votes are about out of
service, and no other one. -/
theorem mem_active_of_removal {r next : Registry} {ctx : Context} {block : Block}
    {txs : List Transaction} {tx : Transaction} {outcome : Outcome} {change : StateChange}
    {key : PublicKey}
    (h : r.apply ctx block (txs ++ [tx]) = .ok (next, outcome)) (hkind : tx.kind = .stateChange)
    (hcarries : tx.stateChange? = some change) (hremoval : change.kind = .deregister)
    (hvoted : votedNode? ctx change block.height = some key) {node : PublicKey} :
    node ∈ next.active.keys ↔
      node ≠ key ∧ node ∈ (r.draft ctx block txs).registry.active.keys := by
  rw [mem_active_of_apply h, draft_concat_of_stateChange r ctx block txs hkind,
    Draft.applyStateChange_eq hcarries, hvoted]
  generalize r.draft ctx block txs = d
  dsimp only
  cases hinfo : d.registry.info? key with
  | none =>
      refine ⟨fun hnode => ⟨?_, hnode⟩, And.right⟩
      rintro rfl
      obtain ⟨info, hinfo'⟩ := exists_info_of_mem_select hnode
      cases hinfo.symm.trans hinfo'
  | some info =>
      have hgone : (d.changeState ctx block change key info).registry.info? node =
          (d.registry.remove key).info? node := by
        unfold Draft.changeState
        rw [hremoval]
        rfl
      refine mem_keys_select.trans ?_
      rw [hgone, info?_remove]
      by_cases hnode : node = key
      · simp [hnode]
      · rw [if_neg hnode]
        refine mem_keys_select.symm.trans ⟨fun hmem => ⟨hnode, hmem⟩, And.right⟩

/-- A block whose last transaction is a removal that a quorum has voted for leaves the node
inactive. -/
theorem not_mem_active_of_removal {r next : Registry} {ctx : Context} {block : Block}
    (txs : List Transaction) {tx : Transaction} {outcome : Outcome}
    (h : r.apply ctx block (txs ++ [tx]) = .ok (next, outcome)) (hkind : tx.kind = .stateChange)
    {change : StateChange} (hremoval : change.kind = .deregister) {q : Quorum} {key : PublicKey}
    {info : NodeInfo}
    (hvotes : Draft.Votes ctx block tx (r.draft ctx block txs) change q key info) :
    key ∉ next.active.keys := by
  have hvoted : votedNode? ctx change block.height = some key := by
    unfold votedNode?
    rw [hvotes.voted]
    exact hvotes.on
  intro hactive
  exact ((mem_active_of_removal h hkind hvotes.carries hremoval hvoted).1 hactive).1 rfl

end Registry

/-! ## Standing and time -/

namespace NodeInfo

/-- Whether a node's standing allows a change: only a node out of service can be put back, and
only one in service can be put out of it or be sent back in the queue. -/
def standsFor (info : NodeInfo) (kind : StateChangeKind) : Bool :=
  if info.isDecommissioned then !(kind == .decommission || kind == .ipChangePenalty)
  else kind != .recommission

/-- Whether votes on the quorum of a height mean the present life of a node. -/
def isTimely (info : NodeInfo) (height : Nat) (kind : StateChangeKind) : Bool :=
  info.canBeVotedOn height &&
    match kind with
    | .deregister => decide (info.registrationHeight < height)
    | .ipChangePenalty => decide (info.lastIpChangeHeight < height)
    | _ => true

/-- Since checkpoints are enforced, a change is allowed when it is timely and the node's
standing allows it. -/
theorem canTransition_eq {fork : HardFork} (hfork : HardFork.enforceCheckpoints ≤ fork)
    (info : NodeInfo) (height : Nat) (kind : StateChangeKind) :
    info.canTransition fork height kind = (info.isTimely height kind && info.standsFor kind) := by
  unfold canTransition
  rw [if_pos hfork]
  rfl

end NodeInfo

namespace Draft

theorem registry_put_eq_iff {d : Draft} {key : PublicKey} {info info' : NodeInfo}
    (hinfo : d.registry.info? key = some info) : d.registry.put key info' = d.registry ↔
      info' = info := by
  constructor
  · intro h
    have hfound : (d.registry.put key info').info? key = some info' := by
      rw [Registry.info?_put, if_pos rfl]
    rw [h, hinfo] at hfound
    exact (Option.some.inj hfound).symm
  · rintro rfl
    have hnodes : d.registry.nodes.insert key info' = d.registry.nodes := by
      refine SortedMap.ext_get? fun key' => ?_
      rw [SortedMap.get?_insert]
      split
      · rename_i hkey
        exact hkey ▸ hinfo.symm
      · rfl
    unfold Registry.put
    rw [hnodes]

/-- A change of a registered node's state takes effect exactly if the node's standing allows
it; a penalty also has to move the node. -/
theorem changeState_takes_effect_iff {ctx : Context} {block : Block} {d : Draft}
    (hfork : HardFork.checkpointing ≤ block.fork) (change : StateChange) {key : PublicKey}
    {info : NodeInfo} (hinfo : d.registry.info? key = some info) :
    ((d.changeState ctx block change key info).registry ≠ d.registry ∨
        (d.changeState ctx block change key info).outcome ≠ d.outcome) ↔
      info.standsFor change.kind = true ∧
        (change.kind = .ipChangePenalty → info.penalisedAt block.height ≠ info) := by
  have hlater : ¬ block.fork < HardFork.checkpointing := HardFork.not_lt.2 hfork
  unfold changeState NodeInfo.standsFor
  cases change.kind with
  | deregister =>
      refine iff_of_true (Or.inl fun h => ?_) (by simp)
      -- The node is gone.
      have hgone : (d.registry.remove key).info? key = none := by
        rw [Registry.info?_remove, if_pos rfl]
      have hnodes : (d.registry.remove key).info? key = d.registry.info? key := by
        show (d.registry.remove key).nodes.get? key = d.registry.nodes.get? key
        exact congrArg (fun r => r.nodes.get? key) h
      rw [hgone, hinfo] at hnodes
      cases hnodes
  | decommission =>
      cases hdown : info.isDecommissioned with
      | true => simp
      | false =>
          dsimp only
          rw [if_neg (by simp [hlater])]
          refine iff_of_true (Or.inr fun h => ?_) (by simp)
          simpa [decommission] using congrArg (·.decommissioned) h
  | recommission =>
      cases hdown : info.isDecommissioned with
      | true =>
          dsimp only
          rw [if_neg (by simp [hlater])]
          refine iff_of_true (Or.inr fun h => ?_) (by simp)
          simpa [recommission] using congrArg (·.recommissioned) h
      | false => simp
  | ipChangePenalty =>
      cases hdown : info.isDecommissioned with
      | true => simp
      | false =>
          dsimp only
          rw [if_neg (by simp [hlater])]
          simp only [penalise, ne_eq, not_true_eq_false, or_false, registry_put_eq_iff hinfo]
          simp

/-- Since checkpoints are enforced, a state change changes the registry or the outcome of its
block exactly if a quorum has voted for it, on a node that is registered and whose standing
allows it, and if a penalty moves the node. Of all that is asked of a change that is allowed,
this leaves out one thing, namely that the votes mean the node's present life: votes count
against a later life of the node as well. -/
theorem state_change_effective_iff (ctx : Context) (block : Block) (tx : Transaction) (d : Draft)
    (hfork : HardFork.enforceCheckpoints ≤ block.fork) :
    (((d.applyStateChange ctx block tx).registry ≠ d.registry ∨
        (d.applyStateChange ctx block tx).outcome ≠ d.outcome) ↔
      ∃ change q key info, Votes ctx block tx d change q key info ∧
        info.standsFor change.kind = true ∧
        (change.kind = .ipChangePenalty → info.penalisedAt block.height ≠ info)) ∧
    ∀ (info : NodeInfo) (height : Nat) (kind : StateChangeKind),
      info.canTransition block.fork height kind =
        (info.isTimely height kind && info.standsFor kind) := by
  have hlater : HardFork.checkpointing ≤ block.fork :=
    Nat.le_trans (show HardFork.checkpointing ≤ HardFork.enforceCheckpoints by decide) hfork
  refine ⟨⟨fun h => ?_, ?_⟩, NodeInfo.canTransition_eq hfork⟩
  · rcases applyStateChange_cases ctx block tx d with hsame | ⟨change, q, key, info, hvotes⟩
    · rw [hsame] at h
      simp at h
    · rw [hvotes.applyStateChange_eq] at h
      exact ⟨change, q, key, info, hvotes,
        (changeState_takes_effect_iff hlater change hvotes.registered).1 h⟩
  · rintro ⟨change, q, key, info, hvotes, hallowed⟩
    rw [hvotes.applyStateChange_eq]
    exact (changeState_takes_effect_iff hlater change hvotes.registered).2 hallowed

/-- Votes of a quorum at height three, used in block six, remove a node that has been registered
anew in block five. -/
theorem state_change_effective_on_a_later_life :
    ∃ (ctx : Context) (block : Block) (tx : Transaction) (d : Draft) (change : StateChange)
      (q : Quorum) (key : PublicKey) (info : NodeInfo),
      Votes ctx block tx d change q key info ∧ change.height < info.registrationHeight ∧
        info.canTransition block.fork change.height change.kind = false ∧
        ((d.applyStateChange ctx block tx).registry ≠ d.registry ∨
          (d.applyStateChange ctx block tx).outcome ≠ d.outcome) := by
  let q : Quorum := ⟨(List.range 7).map fun i => .writing (i + 1), [.writing 9]⟩
  let head : Registry := { Registry.new 3 with quorums := ⟨some q, none, none, none⟩ }
  let ctx : Context :=
    ⟨NetworkRules.of .fakechain, .trusting, ⟨0, fun _ => none, fun _ => none, fun _ => none⟩,
      .of head (.new 0)⟩
  let change : StateChange := ⟨.deregister, 3, 0, 0, 0, (List.range 7).map fun i => ⟨i, 0⟩⟩
  let tx : Transaction :=
    { (default : Transaction) with kind := .stateChange, extra := [.stateChange change] }
  let info : NodeInfo := { registrationHeight := 5, activeSince := 5 }
  let d : Draft := { registry := (Registry.new 5).put (.writing 9) info }
  have hvotes : Votes ctx (.plain 6 .v21) tx d change q (.writing 9) info := by
    exact ⟨by decide +kernel, by decide +kernel, by decide +kernel, by decide +kernel⟩
  have hallowed : info.standsFor change.kind = true := by decide
  refine ⟨ctx, .plain 6 .v21, tx, d, change, q, .writing 9, info, hvotes, by decide, by decide, ?_⟩
  exact (state_change_effective_iff ctx (.plain 6 .v21) tx d (by decide)).1.2
    ⟨change, q, .writing 9, info, hvotes, hallowed, by decide⟩

end Draft

end StakeRegistry
