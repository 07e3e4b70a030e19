import StakeRegistry.Transition.Apply

/-!
# The step of one block

What `Registry.apply` does, cut where its parts meet: the draft before the transactions
(`Registry.opened`), the registry before the quorums are drawn (`Registry.settled`), and the
quorums. Main statements:

* `Registry.apply_eq_ok_iff`: a block applies exactly if it comes next and its quorums can be
  drawn, and then the registry after it is the settled one with these quorums;
* `Registry.SamePlace`: transactions and effects change nodes and blacklist only;
* `Registry.pulseComplete_of_apply`: the Pulse quorum of a registry after a block is complete.
-/

set_option autoImplicit false

namespace StakeRegistry

/-! ## Forks, and results in sequence -/

theorem HardFork.not_lt {a b : HardFork} : ¬ a < b ↔ b ≤ a := Nat.not_lt

/-- A sequence of two computations succeeds exactly if both do. -/
theorem bind_eq_ok_iff {ε α β : Type} {x : Except ε α} {f : α → Except ε β} {b : β} :
    (x >>= f) = .ok b ↔ ∃ a, x = .ok a ∧ f a = .ok b := by
  cases x with
  | error e => simp [bind, Except.bind]
  | ok a => simp [bind, Except.bind]

/-- A guarded computation answers exactly if the guard lets it pass and it answers itself. -/
theorem ite_error_eq_ok_iff {ε α : Type} {p : Prop} [Decidable p] {e : ε} {x : Except ε α}
    {a : α} : (if p then .error e else x) = .ok a ↔ ¬ p ∧ x = .ok a := by
  by_cases h : p
  · simp [h]
  · simp [h]

theorem eq_ok_of_toOption {ε α : Type} {x : Except ε α} {a : α} (h : x.toOption = some a) :
    x = .ok a := by
  cases x with
  | error e => cases h
  | ok b =>
      cases h
      rfl

/-! ## Registries that differ in nodes and blacklist only -/

/-- Both registries belong to one block: they agree in all but nodes and blacklist. -/
structure Registry.SamePlace (r r' : Registry) : Prop where
  height : r'.height = r.height
  blockHash : r'.blockHash = r.blockHash
  quorums : r'.quorums = r.quorums
  quorumsOnly : r'.quorumsOnly = r.quorumsOnly

namespace Registry.SamePlace

theorem refl (r : Registry) : r.SamePlace r := ⟨rfl, rfl, rfl, rfl⟩

theorem trans {r r' r'' : Registry} (h : r.SamePlace r') (h' : r'.SamePlace r'') :
    r.SamePlace r'' :=
  ⟨h'.height.trans h.height, h'.blockHash.trans h.blockHash, h'.quorums.trans h.quorums,
    h'.quorumsOnly.trans h.quorumsOnly⟩

theorem put (r : Registry) (key : PublicKey) (info : NodeInfo) : r.SamePlace (r.put key info) :=
  ⟨rfl, rfl, rfl, rfl⟩

theorem remove (r : Registry) (key : PublicKey) : r.SamePlace (r.remove key) :=
  ⟨rfl, rfl, rfl, rfl⟩

theorem modify (r : Registry) (key : PublicKey) (f : NodeInfo → NodeInfo) :
    r.SamePlace (r.modify key f) := by
  unfold Registry.modify
  split
  · exact put r key _
  · exact refl r

/-- A fold of steps that keep the place keeps it. -/
theorem foldl {α : Type} {f : Registry → α → Registry}
    (hf : ∀ (r : Registry) (a : α), r.SamePlace (f r a)) (l : List α) (r : Registry) :
    r.SamePlace (l.foldl f r) := by
  induction l generalizing r with
  | nil => exact refl r
  | cons a l ih => exact (hf r a).trans (ih (f r a))

theorem noteTurns (r : Registry) (height : Nat) (validators : List PublicKey) :
    r.SamePlace (r.noteTurns height validators) :=
  foldl (fun r _ => modify r _ _) _ r

theorem trimBlacklist (r : Registry) (block : Block) : r.SamePlace (r.trimBlacklist block) := by
  unfold Registry.trimBlacklist
  split
  · exact ⟨rfl, rfl, rfl, rfl⟩
  · exact refl r

theorem payWinner (r : Registry) (block : Block) (winner : PublicKey) :
    r.SamePlace (r.payWinner block winner) := modify r _ _

theorem assignSwarms (r : Registry) (swarms : SwarmMap) : r.SamePlace (r.assignSwarms swarms) :=
  foldl (fun r (s : Nat × List PublicKey) => foldl (fun r key => modify r key _) s.2 r) _ r

theorem rebalanceSwarms (r : Registry) (block : Block) : r.SamePlace (r.rebalanceSwarms block) :=
  assignSwarms r _

end Registry.SamePlace

/-! ## Drafts -/

namespace Draft

theorem samePlace_expire (d : Draft) (key : PublicKey) :
    d.registry.SamePlace (d.expire key).registry := by
  unfold expire
  split
  · exact .refl _
  · exact .remove _ _

theorem samePlace_expireNodes (ctx : Context) (block : Block) (d : Draft) :
    d.registry.SamePlace (d.expireNodes ctx block).registry := by
  unfold expireNodes
  generalize d.registry.expiring ctx block.fork block.height = keys
  induction keys generalizing d with
  | nil => exact .refl _
  | cons key keys ih => exact (samePlace_expire d key).trans (ih (d.expire key))

theorem samePlace_register (ctx : Context) (block : Block) (index : Nat) (tx : Transaction)
    (d : Draft) : d.registry.SamePlace (d.register ctx block index tx).registry := by
  unfold register
  split
  · exact .refl _
  · exact .refl _
  · split
    · exact .put _ _ _
    · split
      · exact .refl _
      · exact .put _ _ _

theorem samePlace_contribute (ctx : Context) (block : Block) (index : Nat) (tx : Transaction)
    (d : Draft) : d.registry.SamePlace (d.contribute ctx block index tx).registry := by
  unfold contribute
  split
  · exact .refl _
  · split
    · exact .refl _
    · split
      · exact .put _ _ _
      · exact .refl _

theorem samePlace_changeState (ctx : Context) (block : Block) (change : StateChange)
    (key : PublicKey) (info : NodeInfo) (d : Draft) :
    d.registry.SamePlace (d.changeState ctx block change key info).registry := by
  unfold changeState
  split
  · exact ⟨rfl, rfl, rfl, rfl⟩
  all_goals
    split
    · exact .refl _
    · exact .put _ _ _

theorem samePlace_applyStateChange (ctx : Context) (block : Block) (tx : Transaction)
    (d : Draft) : d.registry.SamePlace (d.applyStateChange ctx block tx).registry := by
  unfold applyStateChange
  split
  · exact .refl _
  · split
    · exact .refl _
    · split
      · exact .refl _
      · exact samePlace_changeState ctx block _ _ _ d

theorem samePlace_unlock (ctx : Context) (block : Block) (tx : Transaction) (d : Draft) :
    d.registry.SamePlace (d.unlock ctx block tx).registry := by
  unfold unlock
  split
  · split
    · exact .refl _
    · split
      · exact .put _ _ _
      · exact .refl _
  · exact .refl _

theorem samePlace_registerBridged (ctx : Context) (block : Block) (index : Nat)
    (tx : Transaction) (d : Draft) :
    d.registry.SamePlace (d.registerBridged ctx block index tx).registry := by
  unfold registerBridged
  split
  · exact .refl _
  · exact .put _ _ _

theorem samePlace_leave (ctx : Context) (block : Block) (tx : Transaction) (d : Draft) :
    d.registry.SamePlace (d.leave ctx block tx).registry := by
  unfold leave
  split
  · exact .refl _
  · exact .modify _ _ _

theorem registry_exit (ctx : Context) (block : Block) (tx : Transaction) (d : Draft) :
    (d.exit ctx block tx).registry = d.registry := by
  unfold exit
  split
  · rfl
  · split
    · rfl
    · split <;> rfl

theorem samePlace_expel (tx : Transaction) (d : Draft) :
    d.registry.SamePlace (d.expel tx).registry := by
  unfold expel
  split
  · exact .refl _
  · exact .remove _ _

theorem samePlace_applyTransaction (ctx : Context) (block : Block) (d : Draft)
    (tx : Transaction) (index : Nat) :
    d.registry.SamePlace (d.applyTransaction ctx block tx index).registry := by
  unfold applyTransaction
  split
  · have hregistered := samePlace_register ctx block index tx d
    exact hregistered.trans (samePlace_contribute ctx block index tx _)
  · split
    · exact samePlace_applyStateChange ctx block tx d
    · exact samePlace_unlock ctx block tx d
    · exact samePlace_registerBridged ctx block index tx d
    · exact samePlace_leave ctx block tx d
    · rw [registry_exit]
      exact .refl _
    · exact samePlace_expel tx d
    · exact .refl _
    · exact .refl _

/-- What holds of a draft, and is kept by every transaction of a block, holds after all of them. -/
theorem applyTransactions_induction {ctx : Context} {block : Block} {txs : List Transaction}
    {P : Draft → Prop} {d : Draft} (h : P d)
    (hstep : ∀ (d : Draft) (tx : Transaction) (index : Nat), tx ∈ txs → P d →
      P (d.applyTransaction ctx block tx index)) : P (d.applyTransactions ctx block txs) :=
  List.foldlRecOn txs.zipIdx _ h fun d hd p hp =>
    hstep d p.1 p.2 (List.fst_mem_of_mem_zipIdx hp) hd

theorem samePlace_applyTransactions (ctx : Context) (block : Block) (txs : List Transaction)
    (d : Draft) : d.registry.SamePlace (d.applyTransactions ctx block txs).registry :=
  applyTransactions_induction (P := fun d' => d.registry.SamePlace d'.registry) (.refl _)
    fun d' tx index _ h => h.trans (samePlace_applyTransaction ctx block d' tx index)

end Draft

/-! ## The quorums of a block -/

/-- The quorums of a registry hold no Pulse quorum that is not complete. -/
def Quorums.PulseComplete (qs : Quorums) : Prop := ∀ q, qs.pulse = some q → q.isCompletePulse = true

namespace Registry

theorem formPulseQuorum_place (r : Registry) (ctx : Context) (block : Block)
    (winner : PublicKey) : (r.formPulseQuorum ctx block winner).height = r.height ∧
      (r.formPulseQuorum ctx block winner).blockHash = r.blockHash ∧
      (r.formPulseQuorum ctx block winner).quorumsOnly = r.quorumsOnly := by
  unfold formPulseQuorum
  split
  · exact ⟨rfl, rfl, rfl⟩
  · dsimp only
    split
    · have h := SamePlace.noteTurns r block.height
        (r.quorumProducing ctx.rules ctx.suite ctx.chain block winner).validators
      exact ⟨h.height, h.blockHash, h.quorumsOnly⟩
    · exact ⟨rfl, rfl, rfl⟩

/-- Only complete Pulse quorums are kept. -/
theorem pulseComplete_formPulseQuorum {r : Registry} (ctx : Context) (block : Block)
    (winner : PublicKey) (hr : r.quorums.PulseComplete) :
    (r.formPulseQuorum ctx block winner).quorums.PulseComplete := by
  unfold formPulseQuorum
  split
  · exact hr
  · dsimp only
    split
    case isTrue hcomplete =>
      intro q hq
      have : q = r.quorumProducing ctx.rules ctx.suite ctx.chain block winner := by
        simpa [Quorums.set] using hq.symm
      rw [this]
      exact hcomplete
    case isFalse => exact hr

end Registry

/-- The quorums drawn after a block leave its Pulse quorum as it is. -/
theorem pulse_of_drawQuorums {r : Registry} {active : NodeList} {network : Network}
    {fork : HardFork} {qs : Quorums} (h : drawQuorums r active network fork = .ok qs) :
    qs.pulse = r.quorums.pulse := by
  unfold drawQuorums at h
  obtain ⟨obligations, -, h⟩ := bind_eq_ok_iff.1 h
  -- Each conditional draw appears in both branches of its test.
  dsimp only at h
  split at h
  all_goals
    obtain ⟨checkpointing, -, h⟩ := bind_eq_ok_iff.1 h
    split at h
    all_goals
      obtain ⟨blink, -, h⟩ := bind_eq_ok_iff.1 h
      cases h
      rfl

/-! ## The parts of a step -/

namespace Registry

/-- The draft of a block before its transactions. -/
def opened (r : Registry) (ctx : Context) (block : Block) : Draft :=
  let winner := block.minerTx.winner?.getD 0
  let start : Draft :=
    { registry := ((r.atBlock block).formPulseQuorum ctx block winner).trimBlacklist block }
  (start.expireNodes ctx block).mapRegistry (·.payWinner block winner)

/-- Before its transactions, nodes that expire are all that a block has to tell. -/
theorem outcome_opened (r : Registry) (ctx : Context) (block : Block) :
    (r.opened ctx block).outcome = { expired := (r.opened ctx block).outcome.expired } := by
  have hexpired : ∀ (keys : List PublicKey) (d : Draft),
      d.outcome = { expired := d.outcome.expired } → (keys.foldl Draft.expire d).outcome =
        { expired := (keys.foldl Draft.expire d).outcome.expired } := by
    intro keys
    induction keys with
    | nil => exact fun d hd => hd
    | cons key keys ih =>
        intro d hd
        refine ih _ ?_
        unfold Draft.expire
        split
        · exact hd
        · dsimp only
          rw [hd]
  exact hexpired _ _ rfl

/-- The transactions of a block apply to its opened draft. -/
theorem draft_eq (r : Registry) (ctx : Context) (block : Block) (txs : List Transaction) :
    r.draft ctx block txs = (r.opened ctx block).applyTransactions ctx block txs := rfl

/-- A transaction is applied to the draft that those before it have left. -/
theorem draft_concat (r : Registry) (ctx : Context) (block : Block) (txs : List Transaction)
    (tx : Transaction) : r.draft ctx block (txs ++ [tx]) =
      (r.draft ctx block txs).applyTransaction ctx block tx txs.length := by
  rw [draft_eq, draft_eq, Draft.applyTransactions, List.zipIdx_append, List.foldl_append]
  simp [Draft.applyTransactions]

/-- The registry of a block before its quorums are drawn. -/
def settled (r : Registry) (ctx : Context) (block : Block) (txs : List Transaction) : Registry :=
  let d := r.draft ctx block txs
  if d.rebalance then d.registry.rebalanceSwarms block else d.registry

/-- The quorums drawn after a block. -/
def drawn (r : Registry) (ctx : Context) (block : Block) (txs : List Transaction) :
    Except RegistryError Quorums :=
  drawQuorums (r.settled ctx block txs) (r.draft ctx block txs).registry.active ctx.rules.network
    block.fork

/-- A block applies exactly if it comes next and its quorums can be drawn. -/
theorem apply_eq_ok_iff {r : Registry} {ctx : Context} {block : Block} {txs : List Transaction}
    {next : Registry} {outcome : Outcome} :
    r.apply ctx block txs = .ok (next, outcome) ↔
      r.height + 1 = block.height ∧ outcome = (r.draft ctx block txs).outcome ∧
        ∃ quorums, r.drawn ctx block txs = .ok quorums ∧
          next = { r.settled ctx block txs with quorums := quorums } := by
  unfold apply
  by_cases hheight : r.height + 1 = block.height
  · rw [if_neg (not_not_intro hheight)]
    constructor
    · intro h
      obtain ⟨quorums, hdrawn, h⟩ := bind_eq_ok_iff.1 h
      cases h
      exact ⟨hheight, rfl, quorums, hdrawn, rfl⟩
    · rintro ⟨-, rfl, quorums, hdrawn, rfl⟩
      exact bind_eq_ok_iff.2 ⟨quorums, hdrawn, rfl⟩
  · rw [if_pos hheight]
    simp [hheight]

theorem samePlace_settled (r : Registry) (ctx : Context) (block : Block)
    (txs : List Transaction) :
    (r.opened ctx block).registry.SamePlace (r.settled ctx block txs) := by
  have hdraft : (r.opened ctx block).registry.SamePlace (r.draft ctx block txs).registry := by
    rw [draft_eq]
    exact Draft.samePlace_applyTransactions ctx block txs _
  unfold settled
  dsimp only
  split
  · exact hdraft.trans (.rebalanceSwarms _ block)
  · exact hdraft

theorem samePlace_opened (r : Registry) (ctx : Context) (block : Block) :
    ((r.atBlock block).formPulseQuorum ctx block (block.minerTx.winner?.getD 0)).SamePlace
      (r.opened ctx block).registry := by
  refine (SamePlace.trimBlacklist _ block).trans ?_
  refine SamePlace.trans ?_ (.payWinner _ block _)
  exact Draft.samePlace_expireNodes ctx block (Draft.mk _ {} false)

section Applied

variable {r next : Registry} {ctx : Context} {block : Block} {txs : List Transaction}
  {outcome : Outcome}

/-- A registry that a block applies to lies just below it. -/
theorem height_before_apply (h : r.apply ctx block txs = .ok (next, outcome)) :
    r.height + 1 = block.height := (apply_eq_ok_iff.1 h).1

/-- The registry after a block stands at the block's height. -/
theorem height_of_apply (h : r.apply ctx block txs = .ok (next, outcome)) :
    next.height = block.height := by
  obtain ⟨-, -, quorums, -, rfl⟩ := apply_eq_ok_iff.1 h
  have hsettled := (samePlace_settled r ctx block txs).height
  have hopened := (samePlace_opened r ctx block).height
  have hformed := (formPulseQuorum_place (r.atBlock block) ctx block
    (block.minerTx.winner?.getD 0)).1
  show (r.settled ctx block txs).height = block.height
  rw [hsettled, hopened, hformed]
  rfl

/-- The registry after a block carries the block's hash. -/
theorem blockHash_of_apply (h : r.apply ctx block txs = .ok (next, outcome)) :
    next.blockHash = block.hash := by
  obtain ⟨-, -, quorums, -, rfl⟩ := apply_eq_ok_iff.1 h
  have hsettled := (samePlace_settled r ctx block txs).blockHash
  have hopened := (samePlace_opened r ctx block).blockHash
  have hformed := (formPulseQuorum_place (r.atBlock block) ctx block
    (block.minerTx.winner?.getD 0)).2.1
  show (r.settled ctx block txs).blockHash = block.hash
  rw [hsettled, hopened, hformed]
  rfl

/-- A block strips no registry. -/
theorem quorumsOnly_of_apply (h : r.apply ctx block txs = .ok (next, outcome)) :
    next.quorumsOnly = r.quorumsOnly := by
  obtain ⟨-, -, quorums, -, rfl⟩ := apply_eq_ok_iff.1 h
  have hsettled := (samePlace_settled r ctx block txs).quorumsOnly
  have hopened := (samePlace_opened r ctx block).quorumsOnly
  have hformed := (formPulseQuorum_place (r.atBlock block) ctx block
    (block.minerTx.winner?.getD 0)).2.2
  show (r.settled ctx block txs).quorumsOnly = r.quorumsOnly
  rw [hsettled, hopened, hformed]
  rfl

/-- The Pulse quorum of a registry after a block, if it has one, is complete. -/
theorem pulseComplete_of_apply (h : r.apply ctx block txs = .ok (next, outcome)) :
    next.quorums.PulseComplete := by
  obtain ⟨-, -, quorums, hdrawn, rfl⟩ := apply_eq_ok_iff.1 h
  -- Nothing between forming the Pulse quorum and drawing the others touches it.
  have hsettled := (samePlace_settled r ctx block txs).quorums
  have hopened := (samePlace_opened r ctx block).quorums
  -- A block starts from no quorums at all, so none is left over from the block before.
  have hnone : (r.atBlock block).quorums.PulseComplete := by
    intro q hq
    cases hq
  have hformed := pulseComplete_formPulseQuorum ctx block (block.minerTx.winner?.getD 0) hnone
  intro q hq
  have hpulse : quorums.pulse = (r.settled ctx block txs).quorums.pulse :=
    pulse_of_drawQuorums hdrawn
  rw [hsettled, hopened] at hpulse
  exact hformed q (hpulse.symm.trans hq)

end Applied

end Registry

/-! ## The plainest block -/

/-- The byte string that writes a number. -/
def Bytes.writing {n : Nat} (k : Nat) : Bytes n := ⟨leBytes n k, length_leBytes n k⟩

/-- A miner's block with nothing in it, on top of the one like it. Its hash writes its
height. -/
def Block.plain (height : Nat) (fork : HardFork) : Block :=
  { (default : Block) with
    height := height
    hash := .writing height
    prevHash := .writing (height - 1)
    fork := fork }

end StakeRegistry
