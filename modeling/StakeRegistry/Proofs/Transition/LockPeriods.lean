import StakeRegistry.Proofs.Transition.Expiries
import StakeRegistry.Proofs.Transition.Unlocks

/-!
# Lock periods at the first fork with nodes

At the first fork with nodes a block takes away whoever is registered by a transaction of the block
one lock period back, and asks neither the entry nor what became of that registration when the
block was new. So an entry never outlasts its own lock period. It ends earlier, though, if the
block one period back carries a registration of the same node that was not the one which created
the entry: one that was ignored since the node was registered then, or one of an earlier life of
the node. Main statements:

* `mem_registeredOnePeriodBack_iff`: who is found again one lock period back;
* `Registry.Built.inPeriod`: every entry is younger than a lock period, and its registration is on
  the chain;
* `Registry.Built.lock_period`: when an entry is taken away.
-/

set_option autoImplicit false

namespace StakeRegistry

/-! ## Registrations that are found again -/

/-- Where in its block a registration stands decides on the place in the reward queue only. -/
theorem registeredNode_at_index (suite : CryptoSuite) (rules : NetworkRules) (place : BlockPlace)
    (tx : Transaction) (index : Nat) :
    registeredNode suite rules { place with index := index } tx =
      (registeredNode suite rules place tx).map (Option.map fun node =>
        (node.1, { node.2 with lastRewardIndex := index })) := by
  unfold registeredNode
  cases Registration.ofTransaction? tx with
  | none => rfl
  | some reg =>
      dsimp only
      -- Every check that may fail asks the same of both places.
      rcases reg.validate place.fork rules rules.stakingRequirement place.timestamp with e | ⟨⟨⟩⟩
      · rfl
      rcases reg.validateSignature suite with e | ⟨⟨⟩⟩
      · rfl
      rcases Stake.ofTransaction? suite rules place.fork tx place.height with _ | stake
      · rfl
      rcases reg.reserved.head? with _ | ⟨operator, value⟩
      · rfl
      have hcheck : checkOperatorStake { place with index := index }
          rules.stakingRequirement reg operator stake =
        checkOperatorStake place rules.stakingRequirement reg operator stake := rfl
      show (checkOperatorStake { place with index := index } _ _ _ _ >>= _) =
        Except.map _ (checkOperatorStake _ _ _ _ _ >>= _)
      rw [hcheck]
      rcases checkOperatorStake place rules.stakingRequirement reg operator stake with e | ⟨⟨⟩⟩
      · rfl
      show (if _ then _ else if _ then _ else _) =
        Except.map _ (if _ then _ else if _ then _ else _)
      split
      · rfl
      · split <;> rfl

/-- A transaction of some block registers a node under the rules of the first fork with nodes. -/
def Registers (suite : CryptoSuite) (rules : NetworkRules) (timestamp height : Nat)
    (txs : List Transaction) (key : PublicKey) : Prop :=
  ∃ tx ∈ txs, ∃ info, registeredNode suite rules
    ⟨HardFork.serviceNodes, timestamp, height, 0⟩ tx = .ok (some (key, info))

/-- The chain shows a block at a height, not of a fork before that one, with a transaction that
registers a node under its rules. -/
def Context.ShowsRegistration (ctx : Context) (height : Nat) (key : PublicKey) : Prop :=
  ∃ block, ctx.chain.blockAt? height = some block ∧ HardFork.serviceNodes ≤ block.fork ∧
    Registers ctx.suite ctx.rules block.timestamp height (ctx.chain.transactionsOf block) key

/-- The nodes that are found again one lock period back. -/
theorem mem_registeredOnePeriodBack_iff {ctx : Context} {height : Nat} {key : PublicKey} :
    key ∈ registeredOnePeriodBack ctx height ↔
      ∃ earlier, 0 < earlier ∧ earlier + ctx.rules.stakingLockBlocks = height ∧
        ctx.ShowsRegistration earlier key := by
  unfold registeredOnePeriodBack
  split
  case isTrue hlow =>
    refine iff_of_false List.not_mem_nil ?_
    rintro ⟨earlier, hpos, hback, -⟩
    omega
  case isFalse hlow =>
    have hback : ∀ earlier, 0 < earlier ∧ earlier + ctx.rules.stakingLockBlocks = height ↔
        earlier = height - ctx.rules.stakingLockBlocks := by
      intro earlier
      omega
    simp only [← and_assoc, hback, exists_eq_left]
    generalize height - ctx.rules.stakingLockBlocks = earlier
    unfold Context.ShowsRegistration
    cases hblock : ctx.chain.blockAt? earlier with
    | none => simp
    | some block =>
        dsimp only
        split
        case isTrue hfork => simp [HardFork.not_lt.symm, hfork]
        case isFalse hfork =>
          simp only [Option.some.injEq, exists_eq_left', HardFork.not_lt.1 hfork, true_and,
            Registers, List.mem_filterMap]
          refine exists_congr fun tx => and_congr_right fun _ => ?_
          split
          · rename_i hnode
            simp [hnode]
          · rename_i hnode
            simp only [reduceCtorEq, false_iff, not_exists]
            exact fun info hinfo => hnode _ _ hinfo

theorem registers_of_registeredNode {suite : CryptoSuite} {rules : NetworkRules} {block : Block}
    {index : Nat} {txs : List Transaction} {tx : Transaction} {key : PublicKey} {info : NodeInfo}
    (hfork : block.fork = HardFork.serviceNodes) (htx : tx ∈ txs)
    (h : registeredNode suite rules (block.place index) tx = .ok (some (key, info))) :
    Registers suite rules block.timestamp block.height txs key := by
  have hplace : block.place index =
      { (BlockPlace.mk HardFork.serviceNodes block.timestamp block.height 0) with
        index := index } := by
    rw [Block.place, hfork]
  rw [hplace, registeredNode_at_index] at h
  cases hnode : registeredNode suite rules
      ⟨HardFork.serviceNodes, block.timestamp, block.height, 0⟩ tx with
  | error e =>
      rw [hnode] at h
      cases h
  | ok node =>
      rw [hnode] at h
      cases node with
      | none => cases h
      | some node =>
          cases h
          exact ⟨tx, htx, node.2, hnode⟩

/-! ## Runs of the first fork -/

/-- A transaction of the block registers a node, whether or not that had an effect. -/
def Applied.Carries (a : Applied) (key : PublicKey) : Prop :=
  Registers a.ctx.suite a.ctx.rules a.block.timestamp a.block.height a.txs key

/-- Blocks of the first fork with nodes that were applied under the same rules, each while the chain
showed the earlier ones as they are. -/
structure FirstForkRun (rules : NetworkRules) (suite : CryptoSuite) (chain : List Applied) :
    Prop where
  fork : ∀ a ∈ chain, a.block.fork = HardFork.serviceNodes
  rules : ∀ a ∈ chain, a.ctx.rules = rules
  suite : ∀ a ∈ chain, a.ctx.suite = suite
  shown : ∀ a ∈ chain, ∀ b ∈ chain, b.block.height < a.block.height →
    a.ctx.chain.blockAt? b.block.height = some b.block ∧
      a.ctx.chain.transactionsOf b.block = b.txs

/-- An entry is younger than a lock period, and its registration is on the chain. -/
structure InPeriod (rules : NetworkRules) (chain : List Applied) (height : Nat) (key : PublicKey)
    (info : NodeInfo) : Prop where
  young : height < info.registrationHeight + rules.stakingLockBlocks
  carried : ∃ b ∈ chain, b.block.height = info.registrationHeight ∧ b.Carries key

theorem InPeriod.of_registrationHeight {rules : NetworkRules} {chain : List Applied}
    {height : Nat} {key : PublicKey} {info info' : NodeInfo}
    (h : InPeriod rules chain height key info)
    (hsame : info'.registrationHeight = info.registrationHeight) :
    InPeriod rules chain height key info' := by
  obtain ⟨hyoung, hcarried⟩ := h
  rw [← hsame] at hyoung hcarried
  exact ⟨hyoung, hcarried⟩

section Run

variable {rules : NetworkRules} {suite : CryptoSuite} {chain : List Applied} {a : Applied}
  {key : PublicKey} {info : NodeInfo}

theorem FirstForkRun.of_append {back : List Applied}
    (h : FirstForkRun rules suite (chain ++ back)) : FirstForkRun rules suite chain where
  fork b hb := h.fork b (List.mem_append_left back hb)
  rules b hb := h.rules b (List.mem_append_left back hb)
  suite b hb := h.suite b (List.mem_append_left back hb)
  shown b hb c hc := h.shown b (List.mem_append_left back hb) c (List.mem_append_left back hc)

/-- What the chain shows of an earlier block of the run is what the block carries. -/
theorem FirstForkRun.showsRegistration_iff (h : FirstForkRun rules suite chain) (ha : a ∈ chain)
    {b : Applied} (hb : b ∈ chain) (hearlier : b.block.height < a.block.height) :
    a.ctx.ShowsRegistration b.block.height key ↔ b.Carries key := by
  obtain ⟨hblock, htxs⟩ := h.shown a ha b hb hearlier
  unfold Context.ShowsRegistration Applied.Carries
  rw [h.rules a ha, h.suite a ha, h.rules b hb, h.suite b hb, hblock]
  constructor
  · rintro ⟨block, heq, -, hregisters⟩
    cases heq
    rwa [htxs] at hregisters
  · intro hregisters
    refine ⟨b.block, rfl, Nat.le_of_eq ?_, ?_⟩
    · exact congrArg HardFork.number (h.fork b hb).symm
    · rwa [htxs]

/-- At the first fork an entry is taken away exactly if its node is found again one lock period
back. -/
theorem FirstForkRun.takesAway_iff (h : FirstForkRun rules suite chain) (ha : a ∈ chain)
    (hinfo : a.before.info? key = some info) :
    a.TakesAway key info ↔ ∃ earlier, 0 < earlier ∧
      earlier + rules.stakingLockBlocks = a.block.height ∧
      a.ctx.ShowsRegistration earlier key := by
  have hgone : (a.draftAt 0).registry.info? key = none ↔
      key ∈ registeredOnePeriodBack a.ctx a.block.height := by
    refine (a.before.info?_opened_eq_none_iff a.ctx a.block key).trans ?_
    unfold Registry.expiring
    rw [if_pos (h.fork a ha), hinfo]
    simp
  rw [← h.rules a ha, ← mem_registeredOnePeriodBack_iff, ← hgone]
  exact ⟨fun htakes => htakes.gone, fun hnone => ⟨hinfo, hnone⟩⟩

namespace Registry

/-- When a block begins with its transactions, the entries that have reached the end of their lock
period are gone. -/
theorem inPeriod_opened (hrun : FirstForkRun rules suite (chain ++ [a]))
    (hheight : a.before.height + 1 = a.block.height)
    (hpast : ∀ b ∈ chain, 0 < b.block.height ∧ b.block.height < a.block.height)
    (hbefore : ∀ key info, a.before.info? key = some info →
      InPeriod rules chain a.before.height key info)
    (hinfo : (a.before.opened a.ctx a.block).registry.info? key = some info) :
    InPeriod rules (chain ++ [a]) a.block.height key info := by
  obtain ⟨old, hold, hsame⟩ := a.before.keepsTerms_opened a.ctx a.block key info hinfo
  obtain ⟨hyoung, b, hb, hregistered, hcarries⟩ := hbefore key old hold
  have hself : a ∈ chain ++ [a] := List.mem_append_right _ List.mem_cons_self
  have hother : b ∈ chain ++ [a] := List.mem_append_left _ hb
  obtain ⟨hpos, hearlier⟩ := hpast b hb
  refine InPeriod.of_registrationHeight ⟨?_, b, hother, hregistered, hcarries⟩ hsame.height
  by_contra hended
  -- At the end of the period the registration is the one that is found again.
  have htakes : a.TakesAway key old := (hrun.takesAway_iff hself hold).2
    ⟨b.block.height, hpos, by omega, (hrun.showsRegistration_iff hself hother hearlier).2 hcarries⟩
  have hgone : (a.before.opened a.ctx a.block).registry.info? key = none := htakes.gone
  rw [hgone] at hinfo
  cases hinfo

/-- A transaction creates entries at the height of its block only, and leaves the heights of the
others. -/
theorem inPeriod_applyTransaction (hrun : FirstForkRun rules suite (chain ++ [a]))
    (hlock : 0 < rules.stakingLockBlocks) {d : Draft} {tx : Transaction} {index : Nat}
    (htx : tx ∈ a.txs)
    (hd : ∀ key info, d.registry.info? key = some info →
      InPeriod rules (chain ++ [a]) a.block.height key info)
    (hinfo : (d.applyTransaction a.ctx a.block tx index).registry.info? key = some info) :
    InPeriod rules (chain ++ [a]) a.block.height key info := by
  have hself : a ∈ chain ++ [a] := List.mem_append_right _ List.mem_cons_self
  have hfork := hrun.fork a hself
  by_cases hcreated : ∃ origin, d.created? a.ctx a.block index tx = some (key, origin)
  · obtain ⟨origin, hcreated⟩ := hcreated
    cases origin with
    | ordinary =>
        obtain ⟨registered, entry, hnode, hsame, hentry⟩ := Draft.registered_of_created? hcreated
        obtain rfl : entry = info := Option.some.inj (hentry.symm.trans hinfo)
        have hplace : registered.registrationHeight = a.block.height :=
          (NodeInfo.terms_of_registeredNode hnode).2.1
        have hheight : entry.registrationHeight = a.block.height := hsame.height.trans hplace
        exact ⟨by omega, a, hself, hheight.symm, registers_of_registeredNode hfork htx hnode⟩
    | bridge =>
        obtain ⟨-, bridged, hnode, -⟩ := Draft.bridged_of_created? hcreated
        have hlater : HardFork.bridge ≤ a.block.fork := bridge_le_of_bridgedNode hnode
        rw [hfork] at hlater
        exact absurd hlater (by decide)
  · obtain ⟨old, hold, hterms⟩ :=
      Draft.terms_of_applyTransaction (fun origin h => hcreated ⟨origin, h⟩) hinfo
    refine (hd key old hold).of_registrationHeight ?_
    rcases hterms with hsame | ⟨request, -, rfl⟩ | ⟨-, rfl⟩
    · exact hsame.height
    · rfl
    · unfold NodeInfo.leavingAt
      split <;> rfl

/-- Every entry is younger than a lock period, and its registration is on the chain. -/
theorem Built.inPeriod {r : Registry} (h : Built chain r) (hrun : FirstForkRun rules suite chain)
    (hlock : 0 < rules.stakingLockBlocks) :
    ∀ key info, r.info? key = some info → InPeriod rules chain r.height key info := by
  induction h with
  | new height =>
      intro key info hinfo
      cases hinfo
  | @snoc chain a outcome built applied ih =>
      have hheight : a.before.height + 1 = a.block.height := height_before_apply applied
      have hafter : a.after.height = a.block.height := height_of_apply applied
      have hpast : ∀ b ∈ chain, 0 < b.block.height ∧ b.block.height < a.block.height := by
        intro b hb
        have hle := built.height_le b hb
        have hbelow := built.height_before b hb
        omega
      have hdraft : ∀ key info,
          (a.before.draft a.ctx a.block a.txs).registry.info? key = some info →
            InPeriod rules (chain ++ [a]) a.block.height key info :=
        Draft.applyTransactions_induction (P := fun d => ∀ key info,
            d.registry.info? key = some info →
              InPeriod rules (chain ++ [a]) a.block.height key info)
          (fun _ _ => inPeriod_opened hrun hheight hpast (ih hrun.of_append))
          fun _ _ _ htx hd _ _ => inPeriod_applyTransaction hrun hlock htx hd
      intro key info hinfo
      obtain ⟨old, hold, hsame⟩ := (pairsTerms_of_apply applied).exists_before hinfo
      rw [hafter]
      exact (hdraft key old hold).of_registrationHeight hsame.height

end Registry

end Run

/-- **Lock periods**: in a run of the first fork no entry outlasts the lock period that began with
its own registration. The entry is taken away by the block at the end of the period, and before
that exactly by the blocks for which the chain shows, one lock period back and so below the
entry's registration, another registration of the node; of blocks of the run these are the ones
that they carry, whether they had an effect or not. -/
theorem Registry.Built.lock_period {rules : NetworkRules} {suite : CryptoSuite}
    {chain : List Applied} {r : Registry} (h : Built chain r)
    (hrun : FirstForkRun rules suite chain) (hlock : 0 < rules.stakingLockBlocks) {a : Applied}
    (ha : a ∈ chain) {key : PublicKey} {info : NodeInfo}
    (hinfo : a.before.info? key = some info) :
    a.block.height ≤ info.registrationHeight + rules.stakingLockBlocks ∧
      (a.TakesAway key info ↔
        a.block.height = info.registrationHeight + rules.stakingLockBlocks ∨
          ∃ earlier, 0 < earlier ∧ earlier < info.registrationHeight ∧
            earlier + rules.stakingLockBlocks = a.block.height ∧
            a.ctx.ShowsRegistration earlier key) ∧
      ∀ b ∈ chain, b.block.height < a.block.height →
        (a.ctx.ShowsRegistration b.block.height key ↔ b.Carries key) := by
  obtain ⟨front, back, rfl, hfront⟩ := h.split ha
  obtain ⟨hyoung, b, hb, hregistered, hcarries⟩ :=
    hfront.inPeriod hrun.of_append hlock key info hinfo
  have hbefore := h.height_before a ha
  have hbelow : b.block.height ≤ a.before.height := hfront.height_le b hb
  have hshown : ∀ c ∈ front ++ a :: back, c.block.height < a.block.height →
      (a.ctx.ShowsRegistration c.block.height key ↔ c.Carries key) :=
    fun c hc hearlier => hrun.showsRegistration_iff ha hc hearlier
  have hend : a.block.height ≤ info.registrationHeight + rules.stakingLockBlocks := by omega
  refine ⟨hend, ?_, hshown⟩
  rw [hrun.takesAway_iff ha hinfo]
  constructor
  · rintro ⟨earlier, hpos, hback, hshows⟩
    rcases Nat.lt_or_ge earlier info.registrationHeight with hlow | hhigh
    · exact .inr ⟨earlier, hpos, hlow, hback, hshows⟩
    · exact .inl (by omega)
  · rintro (hnow | ⟨earlier, hpos, -, hback, hshows⟩)
    · have hmem : b ∈ front ++ a :: back := List.mem_append_left _ hb
      have hpos := h.height_before b hmem
      exact ⟨b.block.height, by omega, by omega, (hshown b hmem (by omega)).2 hcarries⟩
    · exact ⟨earlier, hpos, hback, hshows⟩

/-! ## A registration that was ignored -/

/-- The registration of a node that the operator funds alone, in one of several transactions. -/
def Transaction.standing (number : Nat) : Transaction :=
  { (default : Transaction) with
    hash := .writing number
    unlockTime := 100
    outputs := [⟨.writing 1, 100 * coin, 0⟩]
    extra := [.nodeKey (.writing 7), .contributor ⟨.writing 1, .writing 1⟩, .txSecretKey 0,
      .registration ⟨[.writing 1], [.writing 1], 0, [stakingPortions], 256, 0⟩] }

/-- Each of the first three blocks carries one of them. -/
def standingTxs (height : Nat) : List Transaction :=
  if height ≤ 3 then [.standing height] else []

def standingBlock (height : Nat) : Block :=
  { Block.plain height .v9 with txHashes := (standingTxs height).map (·.hash) }

/-- The chain of these blocks, under lock periods of two blocks. -/
def standingContext : Context :=
  { Context.bare (.new 1) with
    rules := .brief
    chain := {
      currentHeight := 5
      blockAt? := fun height => if 0 < height then some (standingBlock height) else none
      blockByHash? := fun _ => none
      transaction? := fun hash => ((List.range 4).map .standing).find? (·.hash == hash) } }

/-- The block of a height, applied. -/
def Applied.standing (before : Registry) (height : Nat) : Applied :=
  ⟨standingContext, standingBlock height, standingTxs height, before,
    before.after standingContext (standingBlock height) (standingTxs height)⟩

theorem transactionsOf_standingBlock : ∀ height ≤ 4,
    standingContext.chain.transactionsOf (standingBlock height) = standingTxs height := by decide

theorem firstForkRun_standing {chain : List Applied}
    (h : ∀ x ∈ chain, ∃ before height, x = Applied.standing before height ∧
      0 < height ∧ height ≤ 4) : FirstForkRun .brief .trusting chain where
  fork x hx := by
    obtain ⟨before, height, rfl, -⟩ := h x hx
    rfl
  rules x hx := by
    obtain ⟨before, height, rfl, -⟩ := h x hx
    rfl
  suite x hx := by
    obtain ⟨before, height, rfl, -⟩ := h x hx
    rfl
  shown x hx y hy _ := by
    obtain ⟨_, _, rfl, -⟩ := h x hx
    obtain ⟨before, height, rfl, hpos, hle⟩ := h y hy
    exact ⟨if_pos hpos, transactionsOf_standingBlock height hle⟩

theorem Registry.Built.snoc_standing {chain : List Applied} {r : Registry} (h : Built chain r)
    (height : Nat) (hheight : r.height + 1 = height) :
    Built (chain ++ [.standing r height]) (Applied.standing r height).after ∧
      (Applied.standing r height).after.height = height := by
  obtain ⟨_, _, happly, -⟩ := exists_apply_eq_ok standingContext (standingTxs height)
    (show r.height + 1 = (standingBlock height).height from hheight)
  obtain ⟨outcome, happly⟩ := apply_eq_after (show (r.apply standingContext (standingBlock height)
    (standingTxs height)).toOption.isSome = true by rw [happly]; rfl)
  exact ⟨.snoc (a := .standing r height) h happly, height_of_apply happly⟩

/-- The node registers in block one. What block two carries is ignored, but when the node expires
in block three and registers again there, that takes it away again in block four. -/
theorem Registry.Built.lock_period_cut_short : ∃ chain r a info, Built chain r ∧
    FirstForkRun .brief .trusting chain ∧ a ∈ chain ∧
      a.before.info? (.writing 7) = some info ∧ a.TakesAway (.writing 7) info ∧
      a.block.height < info.registrationHeight + NetworkRules.brief.stakingLockBlocks := by
  let a : Applied := .standing (.new 0) 1
  let b : Applied := .standing a.after 2
  let c : Applied := .standing b.after 3
  let d : Applied := .standing c.after 4
  obtain ⟨ha, hheight₁⟩ := (Built.new 0).snoc_standing 1 rfl
  obtain ⟨hb, hheight₂⟩ := ha.snoc_standing 2 (by rw [hheight₁])
  obtain ⟨hc, hheight₃⟩ := hb.snoc_standing 3 (by rw [hheight₂])
  obtain ⟨hd, -⟩ := hc.snoc_standing 4 (by rw [hheight₃])
  have hbuilt : Built [a, b, c, d] d.after := hd
  have hrun : FirstForkRun .brief .trusting [a, b, c, d] := by
    refine firstForkRun_standing fun x hx => ?_
    simp only [List.mem_cons, List.not_mem_nil, or_false] at hx
    rcases hx with rfl | rfl | rfl | rfl
    · exact ⟨_, 1, rfl, by decide⟩
    · exact ⟨_, 2, rfl, by decide⟩
    · exact ⟨_, 3, rfl, by decide⟩
    · exact ⟨_, 4, rfl, by decide⟩
  have hmem : d ∈ [a, b, c, d] := by simp
  obtain ⟨info, hinfo, hregistered⟩ := (Option.any_eq_true _ _).1 (show
    (d.before.info? (.writing 7)).any (fun info => info.registrationHeight == 3) = true by
      decide +kernel)
  have hregistered : info.registrationHeight = 3 := beq_iff_eq.1 hregistered
  have hcarries : b.Carries (.writing 7) := by
    obtain ⟨found, hfound, hany⟩ := (Option.any_eq_true _ _).1 (show
      (registeredNode .trusting .brief ⟨.v9, 0, 2, 0⟩ (.standing 2)).toOption.any
        (fun found => found.any (·.1 == .writing 7)) = true by decide +kernel)
    obtain ⟨⟨key, entry⟩, rfl, hkey⟩ := (Option.any_eq_true _ _).1 hany
    obtain rfl : key = .writing 7 := beq_iff_eq.1 hkey
    exact ⟨.standing 2, List.mem_singleton.2 rfl, entry, eq_ok_of_toOption hfound⟩
  obtain ⟨-, htakes, hshown⟩ := hbuilt.lock_period hrun (by decide) hmem hinfo
  refine ⟨_, _, d, info, hbuilt, hrun, hmem, hinfo, htakes.2 (.inr ⟨2, by decide, ?_, rfl, ?_⟩), ?_⟩
  · rw [hregistered]
    decide
  · exact (hshown b (by simp) (by decide)).2 hcarries
  · rw [hregistered]
    decide

end StakeRegistry
