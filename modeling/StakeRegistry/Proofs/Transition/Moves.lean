import StakeRegistry.Proofs.Transition.StateChanges

/-!
# What one transaction can do

A transaction that the rules refuse leaves the draft of its block as it is. One that is taken
does one of a few things, each with everything that the rules have asked before (`Draft.Move`);
only a staking transaction may do two, for it can enter a node and bring its operator's stake.
Main statement:

* `Draft.move_applyTransaction`: what applying a transaction does is such a move.
-/

set_option autoImplicit false

namespace StakeRegistry

/-- The node after a request to leave through the bridge; the first one of a node counts. -/
def NodeInfo.leavingAt (info : NodeInfo) (rules : NetworkRules) (height : Nat) : NodeInfo :=
  if info.requestedUnlockHeight = 0 then info.unlockingAt rules height else info

namespace Draft

/-- The draft in which a node has taken a stake. -/
def credited (block : Block) (index : Nat) (stake : Stake) (info : NodeInfo) (d : Draft) : Draft :=
  let info := info.creditStake block.fork block.height index stake
  { d with
    registry := d.registry.put stake.nodeKey info
    rebalance := d.rebalance || info.isFullyFunded }

/-- The draft in which a node has been registered through the bridge. -/
def enterBridged (key : PublicKey) (info : NodeInfo) (d : Draft) : Draft :=
  { d with
    registry := d.registry.put key info
    outcome := { d.outcome with registered := d.outcome.registered ++ [key] } }

/-- The draft in which stakes are to be paid back. -/
def payBack (returned : ReturnedStakes) (d : Draft) : Draft :=
  { d with outcome := { d.outcome with returned := d.outcome.returned ++ [returned] } }

/-- What the registration in a staking transaction can do. -/
inductive Entering (ctx : Context) (block : Block) (index : Nat) (tx : Transaction) (d : Draft) :
    Draft → Prop where
  | nobody : Entering ctx block index tx d d
  | newcomer {key : PublicKey} {info : NodeInfo}
      (registers : registeredNode ctx.suite ctx.rules (block.place index) tx =
        .ok (some (key, info)))
      (vacant : d.registry.info? key = none) :
      Entering ctx block index tx d (d.enter block.fork key info)
  | again {key : PublicKey} {info old entry : NodeInfo}
      (registers : registeredNode ctx.suite ctx.rules (block.place index) tx =
        .ok (some (key, info)))
      (found : d.registry.info? key = some old)
      (renews : reregistered? ctx.rules block.fork block.height old info = some entry) :
      Entering ctx block index tx d (d.enter block.fork key entry)

/-- What the stake in a staking transaction can do. -/
inductive Crediting (ctx : Context) (block : Block) (index : Nat) (tx : Transaction) (d : Draft) :
    Draft → Prop where
  | nobody : Crediting ctx block index tx d d
  | taken {stake : Stake} {info : NodeInfo}
      (decoded : Stake.ofTransaction? ctx.suite ctx.rules block.fork tx block.height = some stake)
      (found : d.registry.info? stake.nodeKey = some info)
      (accepted : info.acceptsStake block.fork stake = true) :
      Crediting ctx block index tx d (d.credited block index stake info)

/-- What a transaction of a block can do to a draft. -/
inductive Move (ctx : Context) (block : Block) (index : Nat) (tx : Transaction) (d : Draft) :
    Draft → Prop where
  | nothing : Move ctx block index tx d d
  | staked {entered funded : Draft} (kind : tx.kind = TxKind.ofStakes block.fork)
      (enters : Entering ctx block index tx d entered)
      (credits : Crediting ctx block index tx entered funded) : Move ctx block index tx d funded
  | deregistered {change : StateChange} {q : Quorum} {key : PublicKey} {info : NodeInfo}
      (kind : tx.kind = .stateChange) (votes : Votes ctx block tx d change q key info)
      (asked : change.kind = .deregister) :
      Move ctx block index tx d (d.deregister ctx block key info)
  | decommissioned {change : StateChange} {q : Quorum} {key : PublicKey} {info : NodeInfo}
      (kind : tx.kind = .stateChange) (votes : Votes ctx block tx d change q key info)
      (asked : change.kind = .decommission) (fork : HardFork.checkpointing ≤ block.fork)
      (up : info.isDecommissioned = false) :
      Move ctx block index tx d (d.decommission block change key info)
  | recommissioned {change : StateChange} {q : Quorum} {key : PublicKey} {info : NodeInfo}
      (kind : tx.kind = .stateChange) (votes : Votes ctx block tx d change q key info)
      (asked : change.kind = .recommission) (fork : HardFork.checkpointing ≤ block.fork)
      (down : info.isDecommissioned = true) :
      Move ctx block index tx d (d.recommission block key info)
  | penalised {change : StateChange} {q : Quorum} {key : PublicKey} {info : NodeInfo}
      (kind : tx.kind = .stateChange) (votes : Votes ctx block tx d change q key info)
      (asked : change.kind = .ipChangePenalty) (fork : HardFork.checkpointing ≤ block.fork)
      (up : info.isDecommissioned = false) :
      Move ctx block index tx d (d.penalise block key info)
  | unlocking {key : PublicKey} {info : NodeInfo} {request : KeyImageUnlock}
      (kind : tx.kind = .keyImageUnlock) (names : tx.nodeKey? = some key)
      (asks : tx.keyImageUnlock? = some request) (found : d.registry.info? key = some info)
      (granted : info.grantsUnlock ctx block.fork block.height request = true) :
      Move ctx block index tx d
        (d.mapRegistry (·.put key (info.unlockingAt ctx.rules block.height)))
  | bridged {key : PublicKey} {info : NodeInfo} (kind : tx.kind = .bridgeRegistration)
      (registers : bridgedNode ctx.suite ctx.rules (block.place index) tx = .ok (key, info)) :
      Move ctx block index tx d (d.enterBridged key info)
  | leaving {key : PublicKey} {info : NodeInfo} (kind : tx.kind = .bridgeLeave)
      (names : tx.bridgeLeave?.bind d.registry.findByBlsKey? = some key)
      (found : d.registry.info? key = some info) :
      Move ctx block index tx d
        (d.mapRegistry (·.put key (info.leavingAt ctx.rules block.height)))
  | exited {returned : ReturnedStakes} (kind : tx.kind = .bridgeExit) :
      Move ctx block index tx d (d.payBack returned)
  | expelled {key : PublicKey} (kind : tx.kind = .bridgeDeregister)
      (names : tx.bridgeDeregister?.bind d.registry.findByBlsKey? = some key) :
      Move ctx block index tx d (d.mapRegistry (·.remove key))

variable {ctx : Context} {block : Block}

theorem entering_register (index : Nat) (tx : Transaction) (d : Draft) :
    Entering ctx block index tx d (d.register ctx block index tx) := by
  unfold register
  split
  case h_1 => exact .nobody
  case h_2 => exact .nobody
  case h_3 key info hregisters =>
    split
    case h_1 hvacant => exact .newcomer hregisters hvacant
    case h_2 old hfound =>
      split
      case h_1 => exact .nobody
      case h_2 entry hrenews => exact .again hregisters hfound hrenews

theorem crediting_contribute (index : Nat) (tx : Transaction) (d : Draft) :
    Crediting ctx block index tx d (d.contribute ctx block index tx) := by
  unfold contribute
  split
  · exact .nobody
  · rename_i stake hdecoded
    split
    · exact .nobody
    · rename_i info hfound
      split
      · rename_i haccepted
        exact .taken hdecoded hfound haccepted
      · exact .nobody

theorem move_applyStateChange (index : Nat) {tx : Transaction} (hkind : tx.kind = .stateChange)
    (d : Draft) : Move ctx block index tx d (d.applyStateChange ctx block tx) := by
  have hlater : ∀ {b : Bool}, ¬ (block.fork < HardFork.checkpointing || b) = true →
      HardFork.checkpointing ≤ block.fork ∧ b = false := by
    intro b h
    simpa [HardFork.not_lt] using h
  rcases applyStateChange_cases ctx block tx d with hsame | ⟨change, q, key, info, hvotes⟩
  · rw [hsame]
    exact .nothing
  · rw [hvotes.applyStateChange_eq]
    unfold changeState
    cases hasked : change.kind with
    | deregister => exact .deregistered hkind hvotes hasked
    | decommission =>
        dsimp only
        split
        · exact .nothing
        · rename_i h
          obtain ⟨hfork, hup⟩ := hlater h
          exact .decommissioned hkind hvotes hasked hfork hup
    | recommission =>
        dsimp only
        split
        · exact .nothing
        · rename_i h
          obtain ⟨hfork, hdown⟩ := hlater h
          exact .recommissioned hkind hvotes hasked hfork (by simpa using hdown)
    | ipChangePenalty =>
        dsimp only
        split
        · exact .nothing
        · rename_i h
          obtain ⟨hfork, hup⟩ := hlater h
          exact .penalised hkind hvotes hasked hfork hup

theorem move_unlock (index : Nat) {tx : Transaction} (hkind : tx.kind = .keyImageUnlock)
    (d : Draft) : Move ctx block index tx d (d.unlock ctx block tx) := by
  unfold unlock
  split
  · rename_i key request hnames hasks
    split
    · exact .nothing
    · rename_i info hfound
      split
      · rename_i hgranted
        exact .unlocking hkind hnames hasks hfound hgranted
      · exact .nothing
  · exact .nothing

theorem move_registerBridged (index : Nat) {tx : Transaction}
    (hkind : tx.kind = .bridgeRegistration) (d : Draft) :
    Move ctx block index tx d (d.registerBridged ctx block index tx) := by
  unfold registerBridged
  split
  · exact .nothing
  · rename_i hregisters
    exact .bridged hkind hregisters

theorem move_leave (index : Nat) {tx : Transaction} (hkind : tx.kind = .bridgeLeave) (d : Draft) :
    Move ctx block index tx d (d.leave ctx block tx) := by
  unfold leave
  split
  · exact .nothing
  · rename_i key hnames
    unfold mapRegistry Registry.modify
    dsimp only
    split
    · rename_i hfound
      exact .leaving hkind hnames hfound
    · exact .nothing

theorem move_exit (index : Nat) {tx : Transaction} (hkind : tx.kind = .bridgeExit) (d : Draft) :
    Move ctx block index tx d (d.exit ctx block tx) := by
  unfold exit
  split
  · exact .nothing
  · split
    · exact .nothing
    · split
      · exact .nothing
      · exact .exited hkind

theorem move_expel (index : Nat) {tx : Transaction} (hkind : tx.kind = .bridgeDeregister)
    (d : Draft) : Move ctx block index tx d (d.expel tx) := by
  unfold expel
  split
  · exact .nothing
  · rename_i hnames
    exact .expelled hkind hnames

/-- Whatever a transaction does is one of the moves. -/
theorem move_applyTransaction (d : Draft) (tx : Transaction) (index : Nat) :
    Move ctx block index tx d (d.applyTransaction ctx block tx index) := by
  unfold applyTransaction
  split
  · rename_i hkind
    exact .staked hkind (entering_register index tx d) (crediting_contribute index tx _)
  · cases hkind : tx.kind with
    | stateChange => exact move_applyStateChange index hkind d
    | keyImageUnlock => exact move_unlock index hkind d
    | bridgeRegistration => exact move_registerBridged index hkind d
    | bridgeLeave => exact move_leave index hkind d
    | bridgeExit => exact move_exit index hkind d
    | bridgeDeregister => exact move_expel index hkind d
    | standard => exact .nothing
    | stake => exact .nothing

/-! ## Recommissions -/

/-- Every recommission so far is noted with the time of the block. -/
def RecommissionedAt (d : Draft) (time : Nat) : Prop := ∀ p ∈ d.outcome.recommissioned, p.2 = time

section Recommissions

variable {index : Nat} {tx : Transaction} {d d' : Draft} {time : Nat}

theorem RecommissionedAt.entering (h : d.RecommissionedAt time)
    (henters : Entering ctx block index tx d d') : d'.RecommissionedAt time := by
  have hentered : ∀ key info, (d.enter block.fork key info).RecommissionedAt time := by
    intro key info
    unfold enter RecommissionedAt
    dsimp only
    split <;> exact h
  cases henters with
  | nobody => exact h
  | @newcomer key info => exact hentered key info
  | @again key info old entry => exact hentered key entry

theorem RecommissionedAt.crediting (h : d.RecommissionedAt time)
    (hcredits : Crediting ctx block index tx d d') : d'.RecommissionedAt time := by
  cases hcredits <;> exact h

theorem RecommissionedAt.move (h : d.RecommissionedAt block.timestamp)
    (hmove : Move ctx block index tx d d') : d'.RecommissionedAt block.timestamp := by
  cases hmove with
  | staked kind enters credits => exact (h.entering enters).crediting credits
  | recommissioned =>
      intro p hp
      rcases List.mem_append.1 hp with hp | hp
      · exact h p hp
      · rw [List.mem_singleton.1 hp]
  | _ => exact h

end Recommissions

end Draft

/-- The nodes that a block recommissions are noted with the time of the block. -/
theorem Registry.recommissioned_of_apply {r next : Registry} {ctx : Context} {block : Block}
    {txs : List Transaction} {outcome : Outcome} (h : r.apply ctx block txs = .ok (next, outcome))
    {p : PublicKey × Nat} (hp : p ∈ outcome.recommissioned) : p.2 = block.timestamp := by
  obtain ⟨-, rfl, -⟩ := apply_eq_ok_iff.1 h
  have hdraft : (r.draft ctx block txs).RecommissionedAt block.timestamp := by
    rw [draft_eq]
    refine Draft.applyTransactions_induction (P := fun d => d.RecommissionedAt block.timestamp) ?_
      fun d tx index _ hd => hd.move (Draft.move_applyTransaction d tx index)
    intro p hp
    rw [outcome_opened] at hp
    cases hp
  exact hdraft p hp

end StakeRegistry
