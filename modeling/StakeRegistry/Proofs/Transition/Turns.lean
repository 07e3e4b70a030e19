import Mathlib.Logic.Relation
import StakeRegistry.Proofs.Transition.Accounting

/-!
# A block, one change at a time

A block changes a registry by a row of single changes, each to one entry at most
(`Draft.Turn`): an entry is created, takes a stake, leaves service or comes back to it, or goes
because it has expired, was voted out or was removed through the bridge. Main statements:

* `Registry.turns_of_apply`: what a block does after it has formed its Pulse quorum and trimmed the
  blacklist is a row of turns;
* `Registry.Each.apply` and `Registry.Every.apply`: a property of entries that survives every turn
  (`NodeRule`, `EntryRule`) survives a block;
* `Registry.Arises.induction`: what every allowed block keeps holds of every registry that arises.
-/

set_option autoImplicit false

namespace StakeRegistry

/-! ## One entry -/

namespace NodeInfo

/-- Both entries have the same record of service. -/
structure SameRecord (info info' : NodeInfo) : Prop where
  activeSince : info'.activeSince = info.activeSince
  registrationHeight : info'.registrationHeight = info.registrationHeight
  decommissionCount : info'.decommissionCount = info.decommissionCount
  lastDecommissionHeight : info'.lastDecommissionHeight = info.lastDecommissionHeight
  recommissionCredit : info'.recommissionCredit = info.recommissionCredit

/-- Both entries have the same stakes and the same record of service. -/
structure SameLife (info info' : NodeInfo) : Prop extends
  SameStakes info info', SameRecord info info'

theorem SameLife.refl (info : NodeInfo) : info.SameLife info :=
  ⟨.refl info, ⟨rfl, rfl, rfl, rfl, rfl⟩⟩

/-- The places of a node in queues, its swarm, its last change of address and the end that was
asked for are no part of its life. -/
theorem SameLife.replaced (info : NodeInfo) (unlock rewardHeight rewardIndex swarm ipHeight : Nat)
    (sorter : PulseSorter) :
    info.SameLife { info with
      requestedUnlockHeight := unlock
      lastRewardHeight := rewardHeight
      lastRewardIndex := rewardIndex
      swarm := swarm
      lastIpChangeHeight := ipHeight
      pulseSorter := sorter } :=
  ⟨⟨rfl, rfl, rfl, rfl, rfl, rfl, rfl⟩, ⟨rfl, rfl, rfl, rfl, rfl⟩⟩

/-- What a block can do to the entry of a node that stays registered. -/
inductive Change (ctx : Context) (block : Block) (info : NodeInfo) : NodeInfo → Prop where
  /-- The entry gets a new place in a queue, a new swarm or an end. -/
  | kept {info' : NodeInfo} (same : info.SameLife info') : Change ctx block info info'
  | credited (index : Nat) (tx : Transaction) (stake : Stake)
      (decoded : Stake.ofTransaction? ctx.suite ctx.rules block.fork tx block.height = some stake)
      (accepted : info.acceptsStake block.fork stake = true) :
      Change ctx block info (info.creditStake block.fork block.height index stake)
  | decommissioned (change : StateChange) (fork : HardFork.checkpointing ≤ block.fork)
      (up : info.isDecommissioned = false) :
      Change ctx block info (info.decommissionedBy block.fork block.height change)
  | recommissioned (fork : HardFork.checkpointing ≤ block.fork)
      (down : info.isDecommissioned = true) :
      Change ctx block info (info.recommissionedAt block.height)

end NodeInfo

/-! ## One turn -/

namespace Draft

/-- Both drafts have the same blacklist, and list the same nodes as expired. -/
structure SameLists (d d' : Draft) : Prop where
  blacklist : d'.registry.blacklist = d.registry.blacklist
  expired : d'.outcome.expired = d.outcome.expired

theorem SameLists.refl (d : Draft) : d.SameLists d := ⟨rfl, rfl⟩

/-- One change that a block with transactions `txs` makes to a draft. -/
inductive Turn (ctx : Context) (block : Block) (txs : List Transaction) (d d' : Draft) : Prop where
  | nothing (nodes : d'.registry.nodes = d.registry.nodes) (lists : d.SameLists d')
  | changed {key : PublicKey} {info info' : NodeInfo} (found : d.registry.info? key = some info)
      (change : info.Change ctx block info')
      (nodes : d'.registry.nodes = d.registry.nodes.insert key info') (lists : d.SameLists d')
  /-- An entry is created, or before infinite staking replaced by a new one of the same node. -/
  | entered {index : Nat} {tx : Transaction} {key : PublicKey} {info entry : NodeInfo}
      (registers : registeredNode ctx.suite ctx.rules (block.place index) tx
        = .ok (some (key, info)))
      (same : info.SameLife entry)
      (vacant : HardFork.infiniteStaking ≤ block.fork → d.registry.info? key = none)
      (nodes : d'.registry.nodes = d.registry.nodes.insert key entry) (lists : d.SameLists d')
  | bridged {index : Nat} {tx : Transaction} {key : PublicKey} {info : NodeInfo} (mem : tx ∈ txs)
      (kind : tx.kind = .bridgeRegistration)
      (registers : bridgedNode ctx.suite ctx.rules (block.place index) tx = .ok (key, info))
      (nodes : d'.registry.nodes = d.registry.nodes.insert key info) (lists : d.SameLists d')
  | expired {key : PublicKey} {blsKey : BlsKey}
      (nodes : d'.registry.nodes = d.registry.nodes.erase key)
      (blacklist : d'.registry.blacklist = d.registry.blacklist)
      (expired : d'.outcome.expired = d.outcome.expired ++ [(key, blsKey)])
  | forfeited {key : PublicKey} {info : NodeInfo} (found : d.registry.info? key = some info)
      (nodes : d'.registry.nodes = d.registry.nodes.erase key)
      (blacklist : d'.registry.blacklist = d.registry.blacklist ++
        if HardFork.infiniteStaking ≤ block.fork then forfeits ctx.rules block.height info else [])
      (expired : d'.outcome.expired = d.outcome.expired)
  | expelled {tx : Transaction} {key : PublicKey} (mem : tx ∈ txs)
      (kind : tx.kind = .bridgeDeregister)
      (nodes : d'.registry.nodes = d.registry.nodes.erase key) (lists : d.SameLists d')

/-- A row of turns. -/
abbrev Turns (ctx : Context) (block : Block) (txs : List Transaction) : Draft → Draft → Prop :=
  Relation.ReflTransGen (Turn ctx block txs)

variable {ctx : Context} {block : Block} {txs : List Transaction} {d : Draft}

theorem Turn.refl (d : Draft) : Turn ctx block txs d d := .nothing rfl (.refl d)

/-- A fold of turns is a row of turns. -/
theorem turns_foldl {α : Type} {f : Draft → α → Draft}
    (hf : ∀ (d : Draft) (a : α), Turns ctx block txs d (f d a)) (l : List α) (d : Draft) :
    Turns ctx block txs d (l.foldl f d) := by
  induction l generalizing d with
  | nil => exact .refl
  | cons a l ih => exact (hf d a).trans (ih (f d a))

/-! ## Handlers -/

theorem turn_register (index : Nat) (tx : Transaction) :
    Turn ctx block txs d (d.register ctx block index tx) := by
  have hlists : ∀ (key : PublicKey) (info : NodeInfo),
      d.SameLists (d.enter block.fork key info) := by
    intro key info
    refine ⟨rfl, ?_⟩
    show (if _ then _ else _ : Outcome).expired = _
    split <;> rfl
  unfold register
  split
  case h_1 => exact .refl d
  case h_2 => exact .refl d
  case h_3 key info hnode =>
    split
    case h_1 hvacant => exact .entered hnode (.refl info) (fun _ => hvacant) rfl (hlists key info)
    case h_2 old _ =>
      split
      case h_1 => exact .refl d
      case h_2 renewed hrenewed =>
        unfold reregistered? at hrenewed
        split at hrenewed
        · cases hrenewed
        · rename_i hearly
          cases hrenewed
          exact .entered hnode (.replaced info _ _ _ _ _ _)
            (fun hfork => absurd (Or.inl hfork) hearly) rfl (hlists key _)

theorem turn_contribute (index : Nat) (tx : Transaction) :
    Turn ctx block txs d (d.contribute ctx block index tx) := by
  unfold contribute
  split
  · exact .refl d
  · rename_i stake hstake
    split
    · exact .refl d
    · rename_i info hinfo
      split
      · rename_i haccepted
        exact .changed hinfo (.credited index tx stake hstake haccepted) rfl ⟨rfl, rfl⟩
      · exact .refl d

theorem turn_changeState (change : StateChange) {key : PublicKey} {info : NodeInfo}
    (hinfo : d.registry.info? key = some info) :
    Turn ctx block txs d (d.changeState ctx block change key info) := by
  have hlater : ∀ {b : Bool}, ¬ (block.fork < HardFork.checkpointing || b) = true →
      HardFork.checkpointing ≤ block.fork ∧ b = false := by
    intro b h
    simpa [HardFork.not_lt] using h
  unfold changeState
  cases change.kind with
  | deregister => exact .forfeited hinfo rfl rfl rfl
  | decommission =>
      dsimp only
      split
      · exact .refl d
      · rename_i h
        obtain ⟨hfork, hup⟩ := hlater h
        exact .changed hinfo (.decommissioned change hfork hup) rfl ⟨rfl, rfl⟩
  | recommission =>
      dsimp only
      split
      · exact .refl d
      · rename_i h
        obtain ⟨hfork, hdown⟩ := hlater h
        exact .changed hinfo (.recommissioned hfork (by simpa using hdown)) rfl ⟨rfl, rfl⟩
  | ipChangePenalty =>
      dsimp only
      split
      · exact .refl d
      · exact .changed hinfo (.kept (.replaced info _ _ _ _ _ _)) rfl ⟨rfl, rfl⟩

theorem turn_applyStateChange (tx : Transaction) :
    Turn ctx block txs d (d.applyStateChange ctx block tx) := by
  unfold applyStateChange
  split
  · exact .refl d
  · split
    · exact .refl d
    · split
      · exact .refl d
      · rename_i hinfo
        exact turn_changeState _ hinfo

theorem turn_unlock (tx : Transaction) : Turn ctx block txs d (d.unlock ctx block tx) := by
  unfold unlock
  split
  · split
    · exact .refl d
    · rename_i hinfo
      split
      · exact .changed hinfo (.kept (.replaced _ _ _ _ _ _ _)) rfl ⟨rfl, rfl⟩
      · exact .refl d
  · exact .refl d

theorem turn_registerBridged (index : Nat) {tx : Transaction} (hmem : tx ∈ txs)
    (hkind : tx.kind = .bridgeRegistration) :
    Turn ctx block txs d (d.registerBridged ctx block index tx) := by
  unfold registerBridged
  split
  · exact .refl d
  · rename_i hnode
    exact .bridged hmem hkind hnode rfl ⟨rfl, rfl⟩

/-- Changing an entry that is there, without touching its life, is a turn. -/
theorem turn_modify (key : PublicKey) {f : NodeInfo → NodeInfo}
    (hf : ∀ info : NodeInfo, info.SameLife (f info)) :
    Turn ctx block txs d (d.mapRegistry (·.modify key f)) := by
  unfold mapRegistry Registry.modify
  dsimp only
  split
  · rename_i info hinfo
    exact .changed hinfo (.kept (hf info)) rfl ⟨rfl, rfl⟩
  · exact .refl d

theorem turn_leave (tx : Transaction) : Turn ctx block txs d (d.leave ctx block tx) := by
  unfold leave
  split
  · exact .refl d
  · refine turn_modify _ fun info => ?_
    split
    · exact .replaced info _ _ _ _ _ _
    · exact .refl info

theorem turn_exit (tx : Transaction) : Turn ctx block txs d (d.exit ctx block tx) := by
  unfold exit
  split
  · exact .refl d
  · split
    · exact .refl d
    · split
      · exact .refl d
      · exact .nothing rfl ⟨rfl, rfl⟩

theorem turn_expel {tx : Transaction} (hmem : tx ∈ txs) (hkind : tx.kind = .bridgeDeregister) :
    Turn ctx block txs d (d.expel tx) := by
  unfold expel
  split
  · exact .refl d
  · exact .expelled hmem hkind rfl ⟨rfl, rfl⟩

theorem turn_expire (key : PublicKey) : Turn ctx block txs d (d.expire key) := by
  unfold expire
  split
  · exact .refl d
  · exact .expired rfl rfl rfl

/-- A transaction of the block makes a row of turns. -/
theorem turns_applyTransaction (d : Draft) {tx : Transaction} (hmem : tx ∈ txs) (index : Nat) :
    Turns ctx block txs d (d.applyTransaction ctx block tx index) := by
  unfold applyTransaction
  split
  · exact .tail (.single (turn_register index tx)) (turn_contribute index tx)
  · split
    · exact .single (turn_applyStateChange tx)
    · exact .single (turn_unlock tx)
    · rename_i hkind
      exact .single (turn_registerBridged index hmem hkind)
    · exact .single (turn_leave tx)
    · exact .single (turn_exit tx)
    · rename_i hkind
      exact .single (turn_expel hmem hkind)
    · exact .refl
    · exact .refl

/-- So do the transactions of the block in order. -/
theorem turns_applyTransactions (d : Draft) :
    Turns ctx block txs d (d.applyTransactions ctx block txs) :=
  applyTransactions_induction (P := Turns ctx block txs d) .refl
    fun d' _ index hmem h => h.trans (turns_applyTransaction d' hmem index)

end Draft

/-! ## One block -/

namespace Registry

open Draft (Turn Turns)

variable {ctx : Context} {block : Block} {txs : List Transaction}

/-- A fold of rows of turns over the entries of a draft is a row of turns. -/
theorem turns_mapRegistry_foldl {α : Type} {f : Registry → α → Registry}
    (hf : ∀ (d : Draft) (a : α), Turns ctx block txs d (d.mapRegistry (f · a))) (l : List α)
    (d : Draft) : Turns ctx block txs d (d.mapRegistry (l.foldl f)) := by
  induction l generalizing d with
  | nil => exact .refl
  | cons a l ih => exact (hf d a).trans (ih (d.mapRegistry (f · a)))

theorem turns_noteTurns (r : Registry) (height : Nat) (validators : List PublicKey) :
    Turns ctx block txs { registry := r } { registry := r.noteTurns height validators } := by
  refine turns_mapRegistry_foldl (fun d v => .single ?_) validators.zipIdx { registry := r }
  exact Draft.turn_modify v.1 fun info => .replaced info _ _ _ _ _ _

theorem turns_formPulseQuorum (r : Registry) (winner : PublicKey) :
    Turns ctx block txs { registry := r }
      { registry := r.formPulseQuorum ctx block winner } := by
  unfold formPulseQuorum
  split
  · exact .refl
  · dsimp only
    split
    · exact .tail (turns_noteTurns r block.height _) (.nothing rfl ⟨rfl, rfl⟩)
    · exact .refl

theorem blacklist_noteTurns (r : Registry) (height : Nat) (validators : List PublicKey) :
    (r.noteTurns height validators).blacklist = r.blacklist := by
  unfold noteTurns
  generalize validators.zipIdx = turns
  induction turns generalizing r with
  | nil => rfl
  | cons v turns ih =>
      rw [List.foldl_cons, ih]
      unfold modify
      split <;> rfl

theorem blacklist_formPulseQuorum (r : Registry) (winner : PublicKey) :
    (r.formPulseQuorum ctx block winner).blacklist = r.blacklist := by
  unfold formPulseQuorum
  split
  · rfl
  · dsimp only
    split
    · exact blacklist_noteTurns r block.height _
    · rfl

theorem turns_assignSwarms (d : Draft) (swarms : SwarmMap) :
    Turns ctx block txs d (d.mapRegistry (·.assignSwarms swarms)) := by
  -- One member after the other, swarm by swarm.
  refine turns_mapRegistry_foldl (fun d s => ?_) swarms.toList d
  refine turns_mapRegistry_foldl (fun d key => .single ?_) s.2 d
  exact Draft.turn_modify key fun info => .replaced info _ _ _ _ _ _

/-- The registry in which a block looks for expired nodes. -/
def formed (r : Registry) (ctx : Context) (block : Block) : Registry :=
  ((r.atBlock block).formPulseQuorum ctx block (block.minerTx.winner?.getD 0)).trimBlacklist block

/-- What a block does from there on is a row of turns. -/
theorem turns_of_apply {r next : Registry} {outcome : Outcome}
    (h : r.apply ctx block txs = .ok (next, outcome)) :
    Turns ctx block txs { registry := r.formed ctx block }
      { registry := next, outcome := outcome } := by
  obtain ⟨-, rfl, quorums, -, rfl⟩ := apply_eq_ok_iff.1 h
  have hopened : Turns ctx block txs { registry := r.formed ctx block } (r.opened ctx block) :=
    .tail (Draft.turns_foldl (fun d key => .single (Draft.turn_expire key)) _ _)
      (Draft.turn_modify (block.minerTx.winner?.getD 0) fun info => .replaced info _ _ _ _ _ _)
  have hdraft : Turns ctx block txs { registry := r.formed ctx block } (r.draft ctx block txs) :=
    hopened.trans (Draft.turns_applyTransactions _)
  have hsettled : Turns ctx block txs (r.draft ctx block txs)
      { r.draft ctx block txs with registry := r.settled ctx block txs } := by
    unfold settled
    dsimp only
    split
    · exact turns_assignSwarms _ _
    · exact .refl
  exact .tail (hdraft.trans hsettled) (.nothing rfl ⟨rfl, rfl⟩)

end Registry

/-! ## Properties that survive -/

/-- A property of the entries of nodes that survives all that a block does to them. -/
structure NodeRule (ctx : Context) (block : Block) (P : PublicKey → NodeInfo → Prop) : Prop where
  changed : ∀ {key : PublicKey} {info info' : NodeInfo}, P key info →
    info.Change ctx block info' → P key info'
  entered : ∀ {index : Nat} {tx : Transaction} {key : PublicKey} {info entry : NodeInfo},
    registeredNode ctx.suite ctx.rules (block.place index) tx = .ok (some (key, info)) →
      info.SameLife entry → P key entry
  bridged : ∀ {index : Nat} {tx : Transaction} {key : PublicKey} {info : NodeInfo},
    bridgedNode ctx.suite ctx.rules (block.place index) tx = .ok (key, info) → P key info

/-- A property of entries that survives all that a block does to them. -/
structure EntryRule (ctx : Context) (block : Block) (P : NodeInfo → Prop) : Prop where
  kept : ∀ {info info' : NodeInfo}, P info → info.SameLife info' → P info'
  registered : ∀ {index : Nat} {tx : Transaction} {key : PublicKey} {info : NodeInfo},
    registeredNode ctx.suite ctx.rules (block.place index) tx = .ok (some (key, info)) → P info
  bridged : ∀ {index : Nat} {tx : Transaction} {key : PublicKey} {info : NodeInfo},
    bridgedNode ctx.suite ctx.rules (block.place index) tx = .ok (key, info) → P info
  credited : ∀ {info : NodeInfo} (index : Nat) {tx : Transaction} {stake : Stake}, P info →
    Stake.ofTransaction? ctx.suite ctx.rules block.fork tx block.height = some stake →
      info.acceptsStake block.fork stake = true →
        P (info.creditStake block.fork block.height index stake)
  decommissioned : ∀ {info : NodeInfo} (change : StateChange), P info →
    info.isDecommissioned = false → P (info.decommissionedBy block.fork block.height change)
  recommissioned : ∀ {info : NodeInfo}, P info → info.isDecommissioned = true →
    P (info.recommissionedAt block.height)

theorem EntryRule.nodeRule {ctx : Context} {block : Block} {P : NodeInfo → Prop}
    (rule : EntryRule ctx block P) : NodeRule ctx block fun _ => P := by
  constructor
  case changed =>
    intro key info info' hold hchange
    cases hchange with
    | kept same => exact rule.kept hold same
    | credited index tx stake decoded accepted => exact rule.credited index hold decoded accepted
    | decommissioned change _ up => exact rule.decommissioned change hold up
    | recommissioned _ down => exact rule.recommissioned hold down
  case entered => exact fun registers same => rule.kept (rule.registered registers) same
  case bridged => exact rule.bridged

namespace Registry

section Entries

variable {r r' : Registry} {key : PublicKey}

theorem info?_of_insert {info : NodeInfo} (h : r'.nodes = r.nodes.insert key info)
    (key' : PublicKey) : r'.info? key' = if key' = key then some info else r.info? key' := by
  unfold info?
  rw [h, SortedMap.get?_insert]

theorem info?_of_erase (h : r'.nodes = r.nodes.erase key) (key' : PublicKey) :
    r'.info? key' = if key' = key then none else r.info? key' := by
  unfold info?
  rw [h, SortedMap.get?_erase]

theorem info?_of_nodes (h : r'.nodes = r.nodes) (key' : PublicKey) :
    r'.info? key' = r.info? key' := by
  unfold info?
  rw [h]

end Entries

/-- The entry of every node has a property. -/
def Each (r : Registry) (P : PublicKey → NodeInfo → Prop) : Prop :=
  ∀ key info, r.info? key = some info → P key info

/-- Every entry has a property. -/
def Every (r : Registry) (P : NodeInfo → Prop) : Prop :=
  ∀ key info, r.info? key = some info → P info

variable {ctx : Context} {block : Block} {txs : List Transaction}

namespace Each

variable {P : PublicKey → NodeInfo → Prop}

theorem new (height : Nat) : (Registry.new height).Each P := by
  intro key info hinfo
  cases hinfo

theorem insert {r r' : Registry} (h : r.Each P) {key : PublicKey} {info : NodeInfo}
    (hnodes : r'.nodes = r.nodes.insert key info) (hnew : P key info) : r'.Each P := by
  intro key' info' hinfo'
  rw [info?_of_insert hnodes] at hinfo'
  split at hinfo'
  · rename_i hkey
    cases hinfo'
    exact hkey ▸ hnew
  · exact h key' info' hinfo'

theorem erase {r r' : Registry} (h : r.Each P) {key : PublicKey}
    (hnodes : r'.nodes = r.nodes.erase key) : r'.Each P := by
  intro key' info' hinfo'
  rw [info?_of_erase hnodes] at hinfo'
  split at hinfo'
  · cases hinfo'
  · exact h key' info' hinfo'

theorem of_nodes {r r' : Registry} (h : r.Each P) (hnodes : r'.nodes = r.nodes) :
    r'.Each P := by
  intro key info hinfo
  rw [info?_of_nodes hnodes] at hinfo
  exact h key info hinfo

/-- The property survives one turn. -/
theorem turn {d d' : Draft} (rule : NodeRule ctx block P) (h : d.registry.Each P)
    (hturn : Draft.Turn ctx block txs d d') : d'.registry.Each P := by
  cases hturn with
  | nothing nodes => exact h.of_nodes nodes
  | changed found change nodes => exact h.insert nodes (rule.changed (h _ _ found) change)
  | entered registers same vacant nodes => exact h.insert nodes (rule.entered registers same)
  | bridged mem kind registers nodes => exact h.insert nodes (rule.bridged registers)
  | expired nodes => exact h.erase nodes
  | forfeited found nodes => exact h.erase nodes
  | expelled mem kind nodes => exact h.erase nodes

theorem turns {d d' : Draft} (rule : NodeRule ctx block P) (h : d.registry.Each P)
    (hturns : Draft.Turns ctx block txs d d') : d'.registry.Each P := by
  induction hturns with
  | refl => exact h
  | tail _ hturn ih => exact ih.turn rule hturn

/-- The property survives a block. -/
theorem apply {r next : Registry} {outcome : Outcome} (rule : NodeRule ctx block P)
    (h : r.Each P) (happly : r.apply ctx block txs = .ok (next, outcome)) : next.Each P := by
  have hplaced : (r.atBlock block).Each P := h.of_nodes rfl
  have hpulse : Draft.Turns ctx block txs { registry := r.atBlock block } _ :=
    turns_formPulseQuorum _ (block.minerTx.winner?.getD 0)
  have hnoted := turns rule hplaced hpulse
  have hformed : (r.formed ctx block).Each P := by
    unfold formed trimBlacklist
    split
    · exact hnoted.of_nodes rfl
    · exact hnoted
  exact turns (d := { registry := r.formed ctx block }) rule hformed (turns_of_apply happly)

end Each

namespace Every

variable {P : NodeInfo → Prop}

theorem new (height : Nat) : (Registry.new height).Every P :=
  Each.new (P := fun _ => P) height

theorem apply {r next : Registry} {outcome : Outcome} (rule : EntryRule ctx block P)
    (h : r.Every P) (happly : r.apply ctx block txs = .ok (next, outcome)) : next.Every P :=
  Each.apply rule.nodeRule h happly

end Every

/-! ## Runs -/

/-- A block leads from a registry to the next, in surroundings and with transactions that are
allowed. -/
def Step (Allowed : Context → Block → List Transaction → Prop) (r next : Registry) : Prop :=
  ∃ ctx block txs outcome, Allowed ctx block txs ∧ r.apply ctx block txs = .ok (next, outcome)

/-- Allowed blocks, any number of them, lead from a registry to another. -/
abbrev LeadsTo (Allowed : Context → Block → List Transaction → Prop) : Registry → Registry → Prop :=
  Relation.ReflTransGen (Step Allowed)

/-- Allowed blocks lead to a registry from an empty one. -/
def Arises (Allowed : Context → Block → List Transaction → Prop) (r : Registry) : Prop :=
  ∃ height, LeadsTo Allowed (new height) r

section Runs

variable {Allowed : Context → Block → List Transaction → Prop} {r r' : Registry}

theorem Arises.leadsTo (h : Arises Allowed r) (h' : LeadsTo Allowed r r') : Arises Allowed r' := by
  obtain ⟨height, hr⟩ := h
  exact ⟨height, hr.trans h'⟩

/-- What holds of an empty registry, and is kept by every allowed block, holds of every registry
that arises. -/
theorem Arises.induction {I : Registry → Prop} (h : Arises Allowed r)
    (hnew : ∀ height, I (new height))
    (hstep : ∀ {r next : Registry} {ctx : Context} {block : Block} {txs : List Transaction}
      {outcome : Outcome}, Allowed ctx block txs → I r →
        r.apply ctx block txs = .ok (next, outcome) → I next) : I r := by
  obtain ⟨height, hr⟩ := h
  induction hr with
  | refl => exact hnew height
  | tail _ hblock ih =>
      obtain ⟨ctx, block, txs, outcome, hallowed, happly⟩ := hblock
      exact hstep hallowed ih happly

/-- The registry after a block, or as it is when the block does not apply. -/
def after (r : Registry) (ctx : Context) (block : Block) (txs : List Transaction) : Registry :=
  ((r.apply ctx block txs).toOption.map (·.1)).getD r

theorem apply_eq_after {ctx : Context} {block : Block} {txs : List Transaction}
    (h : (r.apply ctx block txs).toOption.isSome = true) :
    ∃ outcome, r.apply ctx block txs = .ok (r.after ctx block txs, outcome) := by
  obtain ⟨⟨next, outcome⟩, hnext⟩ := Option.isSome_iff_exists.1 h
  have happly := eq_ok_of_toOption hnext
  refine ⟨outcome, ?_⟩
  unfold after
  rw [happly]
  rfl

/-- An allowed block that applies is a step. -/
theorem step_after {ctx : Context} {block : Block} {txs : List Transaction}
    (hallowed : Allowed ctx block txs) (h : (r.apply ctx block txs).toOption.isSome = true) :
    Step Allowed r (r.after ctx block txs) := by
  obtain ⟨outcome, happly⟩ := apply_eq_after h
  exact ⟨ctx, block, txs, outcome, hallowed, happly⟩

end Runs

end Registry

/-! ## A small run -/

/-- Surroundings without a chain or a history, apart from a registry that gives the quorums of
its height, and with keys and signatures that all pass. -/
def Context.bare (head : Registry) : Context :=
  ⟨NetworkRules.of .fakechain, .trusting, ⟨0, fun _ => none, fun _ => none, fun _ => none⟩,
    .of head (.new 0)⟩

/-- A stake of an address in a node, in one output that a key image locks. -/
def contribution (node address image : Nat) (amount : Nat) : Transaction :=
  { (default : Transaction) with
    kind := .stake
    outputs := [⟨.writing address, amount, 0⟩]
    extra := [.nodeKey (.writing node), .contributor ⟨.writing address, .writing address⟩,
      .txSecretKey 0, .keyImageProofs [⟨.writing image, 0⟩]] }

/-- The registration of a node through the bridge. -/
def Transaction.registering (number : Nat) : Transaction :=
  { (default : Transaction) with
    kind := .bridgeRegistration
    extra := [.bridgeRegistration ⟨.writing number, .writing number, .writing number, 0, 0,
      [⟨.writing number, 100 * coin⟩]⟩] }

/-- The two fifths of the requirement that `sharedRegistration` reserves for another address. -/
def sharedContribution : Transaction := contribution 7 2 6 (40 * coin)

/-- A registry at height three whose obligations quorum, of seven, tests the node of
`sharedRegistration`. -/
def testingRegistry : Registry :=
  { Registry.new 3 with
    quorums :=
      ⟨some ⟨(List.range 7).map fun i => .writing (i + 1), [.writing 7]⟩, none, none, none⟩ }

/-- A change of that node's state which the quorum has voted for. -/
def votedChange (kind : StateChangeKind) : Transaction :=
  { (default : Transaction) with
    kind := .stateChange
    extra := [.stateChange ⟨kind, 3, 0, 0, 0, (List.range 7).map fun i => ⟨i, 0⟩⟩] }

namespace Registry

/-- The node is registered in block two, and waits for what is reserved. -/
def sharedOpen : Registry :=
  (new 1).after (.bare (new 1)) (.plain 2 .v19) [sharedRegistration]

/-- The node is fully funded in block three. -/
def sharedFull : Registry :=
  sharedOpen.after (.bare (new 1)) (.plain 3 .v19) [sharedContribution]

/-- The blocks that register and fund the node apply, wherever they are allowed. -/
theorem arises_sharedFull {Allowed : Context → Block → List Transaction → Prop}
    (hopen : Allowed (.bare (new 1)) (.plain 2 .v19) [sharedRegistration])
    (hfull : Allowed (.bare (new 1)) (.plain 3 .v19) [sharedContribution]) :
    Arises Allowed sharedFull :=
  ⟨1, .tail (.single (step_after hopen (by decide +kernel))) (step_after hfull (by decide +kernel))⟩

end Registry

end StakeRegistry
