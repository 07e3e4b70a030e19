import StakeRegistry.Proofs.Staking.Slots
import StakeRegistry.Proofs.Transition.Terms
import StakeRegistry.Proofs.Transition.Turns

/-!
# Locked stakes are never lost

Since infinite staking a locked stake stays with its node until the node goes. It goes when it
expires, which the block tells, or when it is voted out, and then the stake is on the blacklist
for a lock period (`Draft.KeepsTrack`). The bridge has other ways, and is left out. An entry of the
blacklist ends when its height is reached, if that height was still ahead when it was written: a
block writes its entries after it has dropped those that end (`Registry.LocksAhead`). Main
statements:

* `Draft.KeepsTrack.turns`: no row of turns loses a locked stake;
* `Registry.mem_blacklist_of_apply`: what a block does to the blacklist;
* `Registry.locked_stake_kept`: both, over every run without the bridge;
* `Registry.entry_stays_without_lock_period`: with no lock period an entry is never ahead.
-/

set_option autoImplicit false

namespace StakeRegistry

/-- Whether a transaction relays what happened in the staking contract. -/
def TxKind.isBridge : TxKind → Bool
  | .bridgeRegistration | .bridgeLeave | .bridgeExit | .bridgeDeregister => true
  | _ => false

/-- No change to an entry that stays takes a locked stake from it. -/
theorem NodeInfo.Change.mem_lockedContributions {ctx : Context} {block : Block}
    {info info' : NodeInfo} (h : info.Change ctx block info') {l : LockedContribution}
    (hl : l ∈ info.lockedContributions) : l ∈ info'.lockedContributions := by
  cases h with
  | kept same =>
      unfold lockedContributions
      rwa [same.contributors]
  | credited index tx stake decoded accepted =>
      have hadded := info.lockedContributions_creditStake block.fork block.height index stake
      exact hadded.mem_iff.2 (List.mem_append_left _ hl)
  | decommissioned change fork up => exact hl
  | recommissioned fork down => exact hl

/-! ## One stake through a block -/

namespace Draft

variable {ctx : Context} {block : Block} {txs : List Transaction} {key : PublicKey}
  {l : LockedContribution} {d d' : Draft}

/-- A stake is locked for a node, or the node has expired, or the stake is on the blacklist up to
the height a lock period past the block. -/
def KeepsTrack (ctx : Context) (block : Block) (key : PublicKey) (l : LockedContribution)
    (d : Draft) : Prop :=
  (∃ info, d.registry.info? key = some info ∧ l ∈ info.lockedContributions) ∨
  (∃ blsKey, (key, blsKey) ∈ d.outcome.expired) ∨
  ⟨blacklistVersion, l.keyImage, wrapAdd block.height ctx.rules.stakingLockBlocks, l.amount⟩
    ∈ d.registry.blacklist

/-- A turn adds to the blacklist, and drops nothing from it. -/
theorem Turn.mem_blacklist (h : Turn ctx block txs d d') :
    (∀ e ∈ d.registry.blacklist, e ∈ d'.registry.blacklist) ∧
    ∀ e ∈ d'.registry.blacklist, e ∈ d.registry.blacklist ∨
      e.unlockHeight = wrapAdd block.height ctx.rules.stakingLockBlocks := by
  have hsame : d'.registry.blacklist = d.registry.blacklist →
      (∀ e ∈ d.registry.blacklist, e ∈ d'.registry.blacklist) ∧
      ∀ e ∈ d'.registry.blacklist, e ∈ d.registry.blacklist ∨
        e.unlockHeight = wrapAdd block.height ctx.rules.stakingLockBlocks := by
    intro heq
    rw [heq]
    exact ⟨fun _ he => he, fun _ he => Or.inl he⟩
  cases h with
  | nothing nodes lists => exact hsame lists.blacklist
  | changed found change nodes lists => exact hsame lists.blacklist
  | entered registers same vacant nodes lists => exact hsame lists.blacklist
  | bridged mem kind registers nodes lists => exact hsame lists.blacklist
  | expired nodes blacklist expired => exact hsame blacklist
  | expelled mem kind nodes lists => exact hsame lists.blacklist
  | @forfeited key info found nodes blacklist expired =>
      rw [blacklist]
      refine ⟨fun e he => List.mem_append_left _ he, fun e he => ?_⟩
      rcases List.mem_append.1 he with he | he
      · exact Or.inl he
      · split at he
        · obtain ⟨l, -, rfl⟩ := List.mem_map.1 he
          exact Or.inr rfl
        · cases he

theorem Turns.mem_blacklist (h : Turns ctx block txs d d') :
    (∀ e ∈ d.registry.blacklist, e ∈ d'.registry.blacklist) ∧
    ∀ e ∈ d'.registry.blacklist, e ∈ d.registry.blacklist ∨
      e.unlockHeight = wrapAdd block.height ctx.rules.stakingLockBlocks := by
  induction h with
  | refl => exact ⟨fun _ he => he, fun _ he => Or.inl he⟩
  | tail _ hturn ih =>
      obtain ⟨hkept, hnew⟩ := hturn.mem_blacklist
      exact ⟨fun e he => hkept e (ih.1 e he),
        fun e he => (hnew e he).elim (fun he => ih.2 e he) Or.inr⟩

/-- A turn adds to the list of expired nodes. -/
theorem Turn.mem_expired (h : Turn ctx block txs d d') :
    ∀ p ∈ d.outcome.expired, p ∈ d'.outcome.expired := by
  intro p hp
  cases h with
  | nothing nodes lists => exact lists.expired ▸ hp
  | changed found change nodes lists => exact lists.expired ▸ hp
  | entered registers same vacant nodes lists => exact lists.expired ▸ hp
  | bridged mem kind registers nodes lists => exact lists.expired ▸ hp
  | expired nodes blacklist expired => exact expired ▸ List.mem_append_left _ hp
  | forfeited found nodes blacklist expired => exact expired ▸ hp
  | expelled mem kind nodes lists => exact lists.expired ▸ hp

/-- A turn of a block without the bridge keeps track of a locked stake. -/
theorem KeepsTrack.turn (hfork : HardFork.infiniteStaking ≤ block.fork)
    (hbridge : ∀ tx ∈ txs, tx.kind.isBridge = false) (h : d.KeepsTrack ctx block key l)
    (hturn : Turn ctx block txs d d') : d'.KeepsTrack ctx block key l := by
  rcases h with ⟨info, hinfo, hl⟩ | ⟨blsKey, hexpired⟩ | hentry
  case inr.inl => exact Or.inr (Or.inl ⟨blsKey, hturn.mem_expired _ hexpired⟩)
  case inr.inr => exact Or.inr (Or.inr (hturn.mem_blacklist.1 _ hentry))
  case inl =>
    -- A turn that is not about the node leaves it its entry.
    have hinsert : ∀ {key' : PublicKey} {info' : NodeInfo}, key ≠ key' →
        d'.registry.nodes = d.registry.nodes.insert key' info' →
          d'.KeepsTrack ctx block key l := by
      intro key' info' hne hnodes
      refine Or.inl ⟨info, ?_, hl⟩
      rw [Registry.info?_of_insert hnodes, if_neg hne]
      exact hinfo
    have herase : ∀ {key' : PublicKey}, key ≠ key' →
        d'.registry.nodes = d.registry.nodes.erase key' → d'.KeepsTrack ctx block key l := by
      intro key' hne hnodes
      refine Or.inl ⟨info, ?_, hl⟩
      rw [Registry.info?_of_erase hnodes, if_neg hne]
      exact hinfo
    cases hturn with
    | nothing nodes lists =>
        refine Or.inl ⟨info, ?_, hl⟩
        rw [Registry.info?_of_nodes nodes]
        exact hinfo
    | @changed key' old new found change nodes lists =>
        by_cases hkey : key = key'
        · subst hkey
          obtain rfl : info = old := Option.some.inj (hinfo.symm.trans found)
          refine Or.inl ⟨new, ?_, change.mem_lockedContributions hl⟩
          rw [Registry.info?_of_insert nodes, if_pos rfl]
        · exact hinsert hkey nodes
    | entered registers same vacant nodes lists =>
        refine hinsert (fun hkey => ?_) nodes
        rw [← hkey, hinfo] at vacant
        cases vacant hfork
    | bridged mem kind registers nodes lists =>
        have hkind := hbridge _ mem
        rw [kind] at hkind
        cases hkind
    | @expired key' blsKey nodes blacklist expired =>
        by_cases hkey : key = key'
        · subst hkey
          exact Or.inr (Or.inl ⟨blsKey, expired ▸ List.mem_append_right _ List.mem_cons_self⟩)
        · exact herase hkey nodes
    | @forfeited key' old found nodes blacklist expired =>
        by_cases hkey : key = key'
        · subst hkey
          obtain rfl : info = old := Option.some.inj (hinfo.symm.trans found)
          rw [if_pos hfork] at blacklist
          refine Or.inr (Or.inr (blacklist ▸ List.mem_append_right _ ?_))
          exact List.mem_map.2 ⟨l, hl, rfl⟩
        · exact herase hkey nodes
    | expelled mem kind nodes lists =>
        have hkind := hbridge _ mem
        rw [kind] at hkind
        cases hkind

/-- No row of turns of a block without the bridge loses a locked stake. -/
theorem KeepsTrack.turns (hfork : HardFork.infiniteStaking ≤ block.fork)
    (hbridge : ∀ tx ∈ txs, tx.kind.isBridge = false) (h : d.KeepsTrack ctx block key l)
    (hturns : Turns ctx block txs d d') : d'.KeepsTrack ctx block key l := by
  induction hturns with
  | refl => exact h
  | tail _ hturn ih => exact ih.turn hfork hbridge hturn

end Draft

/-! ## One block -/

namespace Registry

/-- Blocks since infinite staking without transactions of the bridge. -/
def WithoutBridge (_ : Context) (block : Block) (txs : List Transaction) : Prop :=
  HardFork.infiniteStaking ≤ block.fork ∧ ∀ tx ∈ txs, tx.kind.isBridge = false

/-- A lock period that starts with a block ends at a later height. -/
def LockEnds (ctx : Context) (block : Block) : Prop :=
  0 < ctx.rules.stakingLockBlocks ∧ block.height + ctx.rules.stakingLockBlocks ≤ maxU64

/-- Such blocks, from each of which a lock period ends at a later height. -/
def LocksAhead (ctx : Context) (block : Block) (txs : List Transaction) : Prop :=
  WithoutBridge ctx block txs ∧ LockEnds ctx block

theorem LockEnds.lt_wrapAdd {ctx : Context} {block : Block} (h : LockEnds ctx block) :
    block.height < wrapAdd block.height ctx.rules.stakingLockBlocks := by
  rw [wrapAdd_of_le h.2]
  exact Nat.lt_add_of_pos_right h.1

section Blocks

variable {ctx : Context} {block : Block} {txs : List Transaction} {r next : Registry}
  {outcome : Outcome}

/-- Before it looks for expired nodes a block drops the entries that end with it. -/
theorem mem_blacklist_formed (hfork : HardFork.infiniteStaking ≤ block.fork)
    {e : BlacklistEntry} :
    e ∈ (r.formed ctx block).blacklist ↔ e ∈ r.blacklist ∧ block.height < e.unlockHeight := by
  unfold formed trimBlacklist
  rw [if_pos hfork]
  simp only [blacklist_formPulseQuorum, List.mem_filter, decide_eq_true_iff]
  exact Iff.rfl

/-- A block drops the entries that end with it, and adds some that end a lock period later. -/
theorem mem_blacklist_of_apply (hfork : HardFork.infiniteStaking ≤ block.fork)
    (h : r.apply ctx block txs = .ok (next, outcome)) {e : BlacklistEntry} :
    (e ∈ r.blacklist ∧ block.height < e.unlockHeight → e ∈ next.blacklist) ∧
    (e ∈ next.blacklist → e ∈ r.blacklist ∧ block.height < e.unlockHeight ∨
      e.unlockHeight = wrapAdd block.height ctx.rules.stakingLockBlocks) := by
  obtain ⟨hkept, hnew⟩ := (turns_of_apply h).mem_blacklist
  exact ⟨fun he => hkept e ((mem_blacklist_formed hfork).2 he),
    fun he => (hnew e he).imp (mem_blacklist_formed hfork).1 id⟩

/-- After a block without the bridge, a stake that was locked is so still, or its node has
expired, or it is on the blacklist. -/
theorem locked_of_apply (hallowed : WithoutBridge ctx block txs)
    (h : r.apply ctx block txs = .ok (next, outcome)) {key : PublicKey} {info : NodeInfo}
    (hinfo : r.info? key = some info) {l : LockedContribution}
    (hl : l ∈ info.lockedContributions) :
    Draft.KeepsTrack ctx block key l { registry := next, outcome := outcome } := by
  obtain ⟨hfork, hbridge⟩ := hallowed
  -- The turns that the block notes first leave the node its stakes.
  obtain ⟨noted, hnoted, hsame⟩ : ∃ noted, (r.formed ctx block).info? key = some noted ∧
      info.SameStakes noted :=
    (pairsEntries_formed (fun _ _ => ⟨rfl, rfl, rfl, rfl, rfl, rfl, rfl⟩) r ctx
      block).exists_after hinfo
  have hl' : l ∈ noted.lockedContributions := by
    unfold NodeInfo.lockedContributions at hl ⊢
    rwa [hsame.contributors]
  have hstart : Draft.KeepsTrack ctx block key l { registry := r.formed ctx block } :=
    Or.inl ⟨noted, hnoted, hl'⟩
  exact hstart.turns hfork hbridge (turns_of_apply h)

end Blocks

/-! ## Every run -/

/-- The entries of a blacklist end later. -/
theorem Arises.lt_unlockHeight {r : Registry} (h : Arises LocksAhead r) :
    ∀ e ∈ r.blacklist, r.height < e.unlockHeight := by
  refine h.induction (I := fun r => ∀ e ∈ r.blacklist, r.height < e.unlockHeight)
    (fun height e he => by cases he) fun hallowed _ happly e he => ?_
  obtain ⟨⟨hfork, -⟩, hends⟩ := hallowed
  rw [height_of_apply happly]
  rcases (mem_blacklist_of_apply hfork happly).2 he with ⟨-, hlater⟩ | hnew
  · exact hlater
  · exact hnew ▸ hends.lt_wrapAdd

/-- An entry of a blacklist stays until its end, and no longer. -/
theorem LeadsTo.mem_blacklist_iff {r r' : Registry} (h : LeadsTo LocksAhead r r')
    {e : BlacklistEntry} (hmem : e ∈ r.blacklist) (hend : r.height < e.unlockHeight) :
    e ∈ r'.blacklist ↔ r'.height < e.unlockHeight := by
  induction h with
  | refl => exact iff_of_true hmem hend
  | @tail before after _ hblock ih =>
      obtain ⟨ctx, block, txs, outcome, ⟨⟨hfork, -⟩, hends⟩, happly⟩ := hblock
      have hbefore := height_before_apply happly
      obtain ⟨hkept, hold⟩ := mem_blacklist_of_apply (e := e) hfork happly
      rw [height_of_apply happly]
      constructor
      · intro he
        rcases hold he with ⟨-, hlater⟩ | hnew
        · exact hlater
        · exact hnew ▸ hends.lt_wrapAdd
      · intro hlater
        exact hkept ⟨ih.2 (by omega), hlater⟩

/-- Over every run of blocks since infinite staking without the bridge: a stake that is locked for
a node before a block is locked for it after the block, or the block lists the node as expired,
or the blacklist holds the stake's key image and amount, up to the height a lock period past the
block. And where each block's lock period ends at a later height, an entry of the blacklist is in
every later registry below the height where it ends, and in none from there on. -/
theorem locked_stake_kept (r : Registry) :
    (∀ {ctx : Context} {block : Block} {txs : List Transaction} {next : Registry}
      {outcome : Outcome}, WithoutBridge ctx block txs →
        r.apply ctx block txs = .ok (next, outcome) →
        ∀ {key : PublicKey} {info : NodeInfo}, r.info? key = some info →
        ∀ l ∈ info.lockedContributions,
          (∃ info', next.info? key = some info' ∧ l ∈ info'.lockedContributions) ∨
          (∃ blsKey, (key, blsKey) ∈ outcome.expired) ∨
          ∃ e ∈ next.blacklist, e.keyImage = l.keyImage ∧ e.amount = l.amount ∧
            (block.height + ctx.rules.stakingLockBlocks ≤ maxU64 →
              e.unlockHeight = block.height + ctx.rules.stakingLockBlocks)) ∧
    (Arises LocksAhead r → ∀ e ∈ r.blacklist, ∀ r', LeadsTo LocksAhead r r' →
      (e ∈ r'.blacklist ↔ r'.height < e.unlockHeight)) := by
  refine ⟨fun hallowed happly _ _ hinfo l hl => ?_, fun h e he r' hr' => ?_⟩
  · rcases locked_of_apply hallowed happly hinfo hl with hkept | hexpired | hentry
    · exact Or.inl hkept
    · exact Or.inr (Or.inl hexpired)
    · exact Or.inr (Or.inr ⟨_, hentry, rfl, rfl, wrapAdd_of_le⟩)
  · exact hr'.mem_blacklist_iff he (h.lt_unlockHeight e he)

/-- The stake of an operator whose node is voted out in block four is on the blacklist until
height thirty-four. -/
theorem locked_stake_kept_of_removal :
    ∃ r info l e, Arises LocksAhead r ∧ sharedFull.info? (.writing 7) = some info ∧
      l ∈ info.lockedContributions ∧ l.amount = 60 * coin ∧ r.info? (.writing 7) = none ∧
      e ∈ r.blacklist ∧ e.keyImage = l.keyImage ∧ e.amount = 60 * coin ∧ e.unlockHeight = 34 ∧
      ∀ r', LeadsTo LocksAhead r r' → (e ∈ r'.blacklist ↔ r'.height < 34) := by
  let ctx : Context := .bare testingRegistry
  let block : Block := .plain 4 .v19
  let txs : List Transaction := [votedChange .deregister]
  have hfull : Arises LocksAhead sharedFull := arises_sharedFull
    (by unfold LocksAhead WithoutBridge LockEnds; decide)
    (by unfold LocksAhead WithoutBridge LockEnds; decide)
  have hallowed : LocksAhead ctx block txs := by
    unfold LocksAhead WithoutBridge LockEnds
    decide
  -- Nobody is left for the quorums after the block.
  let quorums : Quorums := ⟨some ⟨[], []⟩, none, none, none⟩
  have happly : sharedFull.apply ctx block txs = .ok (_, _) :=
    apply_eq_ok_iff.2 ⟨by decide +kernel, rfl, quorums, eq_ok_of_toOption (by decide +kernel), rfl⟩
  obtain ⟨info, hinfo, hlocked⟩ := (Option.any_eq_true _ _).1 (show
    (sharedFull.info? (.writing 7)).any (fun info =>
      decide (⟨.writing 1, .writing 5, 60 * coin⟩ ∈ info.lockedContributions)) = true by
        decide +kernel)
  have hlocked := of_decide_eq_true hlocked
  have hgone : ({ sharedFull.settled ctx block txs with quorums := quorums } : Registry).info?
      (.writing 7) = none := by decide +kernel
  have hexpired : (sharedFull.draft ctx block txs).outcome.expired = [] := by decide +kernel
  obtain ⟨e, hentry, himage, hamount, hend⟩ : ∃ e ∈ _, _ ∧ _ ∧ _ := by
    have hkept := (locked_stake_kept sharedFull).1 hallowed.1 happly hinfo _ hlocked
    refine (hkept.resolve_left ?_).resolve_left ?_
    · rintro ⟨info', hinfo', -⟩
      cases hgone.symm.trans hinfo'
    · rintro ⟨blsKey, hmem⟩
      rw [hexpired] at hmem
      cases hmem
  have hr : Arises LocksAhead _ := hfull.leadsTo (.single ⟨_, _, _, _, hallowed, happly⟩)
  have hlater := (locked_stake_kept _).2 hr e hentry
  have hend : e.unlockHeight = 34 := hend (by decide)
  rw [hend] at hlater
  exact ⟨_, info, _, e, hr, hinfo, hlocked, rfl, hgone, hentry, himage, hamount, hend, hlater⟩

/-- Bare surroundings on a network that locks stakes for no blocks. -/
def withoutLocks (head : Registry) : Context :=
  { Context.bare head with rules := { NetworkRules.of .fakechain with stakingLockBlocks := 0 } }

/-- Where stakes are locked for no blocks, the entry for a node that is voted out in block four is
on the blacklist at height four, which is its end. -/
theorem entry_stays_without_lock_period :
    ∃ r e, Arises WithoutBridge r ∧ r.height = 4 ∧ e ∈ r.blacklist ∧ e.unlockHeight = 4 ∧
      ¬ ∀ r', LeadsTo WithoutBridge r r' → (e ∈ r'.blacklist ↔ r'.height < e.unlockHeight) := by
  let opened : Registry := (new 1).after (withoutLocks (new 1)) (.plain 2 .v19) [sharedRegistration]
  let full : Registry := opened.after (withoutLocks (new 1)) (.plain 3 .v19) [sharedContribution]
  let r : Registry :=
    full.after (withoutLocks testingRegistry) (.plain 4 .v19) [votedChange .deregister]
  let e : BlacklistEntry := ⟨blacklistVersion, .writing 5, 4, 60 * coin⟩
  have hopened : Step WithoutBridge (new 1) opened :=
    step_after (by unfold WithoutBridge; decide) (by decide +kernel)
  have hfull : Step WithoutBridge opened full :=
    step_after (by unfold WithoutBridge; decide) (by decide +kernel)
  have hr : Step WithoutBridge full r :=
    step_after (by unfold WithoutBridge; decide) (by decide +kernel)
  have hheight : r.height = 4 := by decide +kernel
  have hmem : e ∈ r.blacklist := by decide +kernel
  refine ⟨r, e, ⟨1, .tail (.tail (.single hopened) hfull) hr⟩, hheight, hmem, rfl, fun h => ?_⟩
  have hend := (h r .refl).1 hmem
  rw [hheight] at hend
  exact absurd hend (by decide)

end Registry

end StakeRegistry
