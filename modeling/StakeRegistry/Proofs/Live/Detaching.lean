import StakeRegistry.Proofs.Live.Following
import StakeRegistry.Proofs.Live.Lockstep

/-!
# Going back is exact

When the chain drops blocks, a registry that followed it goes back to the very head that it
published at the height below: taken from the recent ones, or by applying blocks again from an
archived one or from the empty one. Applying blocks again gives the heads of the first time
because the votes in them are counted by the same quorums: those of the last `voteLifetime`
heights below an archived registry are archived with it. Main statements:

* `LiveRegistry.replay_of_leads`: blocks applied again give the heads published before;
* `LiveRegistry.Follows.detach_exact`: going back is exact, at every depth.
-/

set_option autoImplicit false

namespace StakeRegistry

theorem NetworkRules.stakingLockBlocks_pos (network : Network) :
    0 < (NetworkRules.of network).stakingLockBlocks := by
  cases network <;> decide

/-! ## Blocks applied again -/

/-- Whoever sees the blocks below and recalls the same quorums, but for some that are lost, gets the
same head from the block of the feed, unless that rests on a lost quorum. -/
theorem Leads.apply_without {rules : NetworkRules} {suite : CryptoSuite} {feed : Feed}
    {quorums : Nat → Option Quorum} {r next : Registry} {start : Nat} (lost : Nat → Prop)
    [DecidablePred lost] (h : Leads rules suite feed quorums r next) (hchain : feed.IsChain start)
    (hlock : 0 < rules.stakingLockBlocks) :
    ∃ block txs outcome, (block, txs) ∈ feed ∧ block.height = r.height + 1 ∧
      HardFork.serviceNodes ≤ block.fork ∧
      ∀ (ctx : Context) (top : Nat) (s : Surroundings), ctx.rules = rules → ctx.suite = suite →
        s.suite = suite → ctx.chain.Shows feed top → block.height ≤ top →
        ctx.view.Recalls (withoutLost lost quorums) block.height →
        ¬ Feeding.RestsOn ⟨s, block, txs⟩ lost quorums →
        r.apply ctx block txs = .ok (next, outcome) := by
  cases h with
  | @block ctx block txs top _ _ outcome rules_eq suite_eq shows below recalls fed fork applied =>
      have hheight := Registry.height_before_apply applied
      refine ⟨block, txs, outcome, fed, hheight.symm, fork, ?_⟩
      intro ctx' top' s hrules hsuite hs hshows hbelow hrecalls hrests
      have hrules' : ctx'.rules = ctx.rules := hrules.trans rules_eq.symm
      have hsuite' : ctx'.suite = ctx.suite := hsuite.trans suite_eq.symm
      have hagrees : ctx.Agrees ctx' block txs := by
        refine ⟨hrules', hsuite', fun round => ?_, fun _ => ?_, fun tx htx hkind change hchange => ?_⟩
        · rw [hsuite']
          exact shows.pulseEntropy_congr hshows hchain fed below hbelow ctx.suite round
        · exact registeredOnePeriodBack_congr shows hshows hrules' hsuite'
            (by rw [rules_eq]; exact hlock) below hbelow
        · exact votingQuorum?_of_not_restsOn hrests (suite_eq.trans hs.symm) hsuite' recalls
            hrecalls htx hkind hchange
      rw [Registry.apply_congr hagrees, applied]

/-- Whoever recalls all the quorums and sees the blocks below gets the same head from the block of
the feed. -/
theorem Leads.apply_again {rules : NetworkRules} {suite : CryptoSuite} {feed : Feed}
    {quorums : Nat → Option Quorum} {r next : Registry} {start : Nat}
    (h : Leads rules suite feed quorums r next) (hchain : feed.IsChain start)
    (hlock : 0 < rules.stakingLockBlocks) :
    ∃ block txs outcome, (block, txs) ∈ feed ∧ block.height = r.height + 1 ∧
      HardFork.serviceNodes ≤ block.fork ∧
      ∀ (ctx : Context) (top : Nat), ctx.rules = rules → ctx.suite = suite →
        ctx.chain.Shows feed top → block.height ≤ top →
        ctx.view.Recalls quorums block.height →
        r.apply ctx block txs = .ok (next, outcome) := by
  obtain ⟨block, txs, outcome, hfed, hheight, hfork, happly⟩ :=
    h.apply_without (fun _ => False) hchain hlock
  refine ⟨block, txs, outcome, hfed, hheight, hfork, ?_⟩
  intro ctx top hrules hsuite hshows hbelow hrecalls
  refine happly ctx top ⟨ctx.suite, ctx.chain, 0, none, none, 0⟩ hrules hsuite hsuite hshows hbelow
    ?_ ?_
  · rw [withoutLost_never]
    exact hrecalls
  · rintro ⟨_, _, _, _, _, hlost, -⟩
    exact hlost

namespace LiveRegistry

section Again

variable {suite : CryptoSuite} {feed : Feed} {l : LiveRegistry} {heads : List Registry}
  {s : Surroundings} {top : Nat}

/-- The blocks of a feed between two heights, the upper one included, rest on no lost quorum. -/
def NoneRests (s : Surroundings) (feed : Feed) (lost : Nat → Prop)
    (quorums : Nat → Option Quorum) (below last : Nat) : Prop :=
  ∀ e ∈ feed, below < e.1.height → e.1.height ≤ last →
    ¬ Feeding.RestsOn ⟨s, e.1, e.2⟩ lost quorums

theorem noneRests_never (s : Surroundings) (feed : Feed) (quorums : Nat → Option Quorum)
    (below last : Nat) : NoneRests s feed (fun _ => False) quorums below last := by
  rintro e - - - ⟨_, _, _, _, _, hlost, -⟩
  exact hlost

/-- A registry that stands at a published head, and recalls the quorums below it but for some that
are lost, moves on to the next one by the block that the chain shows. -/
theorem advance_of_leads {next : Registry} {start : Nat} {lost : Nat → Prop}
    [DecidablePred lost] (hchain : feed.IsChain start)
    (hsuite : s.suite = suite) (hshows : s.chain.Shows feed top)
    (hlow : l.head.height + 1 < top)
    (hleads : Leads l.rules suite feed (quorumAt heads) l.head next)
    (hrecalls : l.view.Recalls (withoutLost lost (quorumAt heads)) (l.head.height + 1))
    (hnone : NoneRests s feed lost (quorumAt heads) l.head.height (l.head.height + 1)) :
    ∃ block outcome, s.chain.blockAt? (l.head.height + 1) = some block ∧
      HardFork.serviceNodes ≤ block.fork ∧ next.height = l.head.height + 1 ∧
      l.advance s block (s.chain.transactionsOf block) none false =
        .ok (outcome, { l with head := next, history := l.history.push next.height l.head }) := by
  obtain ⟨block, txs, outcome, hfed, hheight, hfork, happly⟩ :=
    hleads.apply_without lost hchain (NetworkRules.stakingLockBlocks_pos l.settings.network)
  have hblock : s.chain.blockAt? (l.head.height + 1) = some block := by
    rw [← hheight]
    exact hshows.blockAt?_eq hfed (by omega)
  have htxs : s.chain.transactionsOf block = txs :=
    hshows.transactions (block, txs) hfed (by dsimp only; omega)
  rw [← hheight] at hrecalls
  have hagain := happly (l.context s l.view) top s rfl hsuite hsuite hshows (by omega) hrecalls
    (hnone (block, txs) hfed (by dsimp only; omega) (by dsimp only; omega))
  have hnext : next.height = block.height := Registry.height_of_apply hagain
  refine ⟨block, outcome, hblock, hfork, by omega, ?_⟩
  rw [htxs, advance_eq_ok_iff]
  refine ⟨next, hagain, by simp, ?_⟩
  rw [hnext]

/-- What a registry keeps when it moves on from a published head to the next one. -/
def KeptUpwards (heads : List Registry) (P : LiveRegistry → Prop) : Prop :=
  ∀ (l : LiveRegistry) (next : Registry), P l → headAt heads l.head.height = some l.head →
    next.height = l.head.height + 1 → headAt heads next.height = some next →
    P { l with head := next, history := l.history.push next.height l.head }

/-- Blocks applied again, from a published head on, give the heads published before, as long as
none of them rests on a quorum that was lost. -/
theorem replay_of_leads {start last : Nat} {lost : Nat → Prop} [DecidablePred lost]
    {P : LiveRegistry → Prop} (hkept : KeptUpwards heads P) (hchain : feed.IsChain start)
    (hsuite : s.suite = suite) (hshows : s.chain.Shows feed top)
    (hevery : ∀ height, l.head.height ≤ height → height ≤ last → ∃ r, headAt heads height = some r)
    (hleads : ∀ height r next, headAt heads height = some r →
      headAt heads (height + 1) = some next → Leads l.rules suite feed (quorumAt heads) r next)
    (hlost : ∀ height, lost height → height ≤ l.head.height)
    (hhead : headAt heads l.head.height = some l.head)
    (hrecalls : l.view.Recalls (withoutLost lost (quorumAt heads)) (l.head.height + 1))
    (hl : P l) (steps : Nat) (hlast : l.head.height + steps ≤ last)
    (hlow : l.head.height + steps < top)
    (hnone : NoneRests s feed lost (quorumAt heads) l.head.height (l.head.height + steps)) :
    ∃ l', replay s (List.range' (l.head.height + 1) steps) l = (.ok (), l') ∧
      headAt heads (l.head.height + steps) = some l'.head ∧
      l'.view.Recalls (withoutLost lost (quorumAt heads)) (l'.head.height + 1) ∧ P l' ∧
      l'.settings = l.settings := by
  -- Each step reaches the next published head, with the quorums below it on record again.
  induction steps generalizing l with
  | zero => exact ⟨l, rfl, hhead, hrecalls, hl, rfl⟩
  | succ steps ih =>
      obtain ⟨next, hnext⟩ := hevery (l.head.height + 1) (by omega) (by omega)
      have hlead := hleads _ _ _ hhead hnext
      obtain ⟨block, outcome, hblock, hfork, hheight, hadvance⟩ :=
        advance_of_leads hchain hsuite hshows (by omega) hlead hrecalls
          fun e he hbelow hle => hnone e he hbelow (by omega)
      have hmoved : ({ l with
          head := next, history := l.history.push next.height l.head } : LiveRegistry).view.Recalls
            (withoutLost lost (quorumAt heads)) (next.height + 1) := by
        refine HistoryView.recalls_push hrecalls hheight ?_
        -- A new head lies above everything lost.
        have hkept : ¬ lost next.height := fun h => by
          have := hlost _ h
          omega
        rw [withoutLost, if_neg hkept, quorumAt, hheight, hnext]
        rfl
      have hpublished : headAt heads next.height = some next := by
        rw [hheight]
        exact hnext
      obtain ⟨l', hdone, hlast', hrecalls', hl', hsettings⟩ :=
        ih (l := { l with head := next, history := l.history.push next.height l.head })
          (fun height hge hle => hevery height (by dsimp only at hge; omega) hle) hleads
          (fun height h => by
            have := hlost height h
            dsimp only
            omega)
          hpublished hmoved (hkept l next hl hhead hheight hpublished)
          (by dsimp only; omega) (by dsimp only; omega)
          fun e he hbelow hle => hnone e he (by dsimp only at hbelow; omega)
            (by dsimp only at hle; omega)
      dsimp only at hdone hlast'
      refine ⟨l', ?_, ?_, hrecalls', hl', hsettings⟩
      · rw [List.range'_succ]
        unfold replay
        rw [hblock]
        dsimp only
        rw [if_neg (HardFork.not_lt.2 hfork), hadvance]
        rw [← hheight]
        exact hdone
      · have hsum : l.head.height + (steps + 1) = l.head.height + 1 + steps := by omega
        rw [hheight] at hlast'
        rw [hsum]
        exact hlast'

end Again

/-! ## The three ways back -/

section Back

variable {suite : CryptoSuite} {feed : Feed} {l : LiveRegistry} {heads : List Registry}
  {s : Surroundings}

theorem fullAt?_eq_some {tier : SortedMap Nat Registry} {height : Nat} {r : Registry}
    (h : History.fullAt? tier height = some r) :
    tier.get? height = some r ∧ r.quorumsOnly = false := by
  obtain ⟨hget, hfull⟩ := Option.filter_eq_some_iff.1 h
  exact ⟨hget, by simpa using hfull⟩

/-- A full registry among the recent ones is the head published at its height. -/
theorem OnCourse.headAt_of_recent (h : OnCourse suite feed l heads) {height : Nat} {r : Registry}
    (hr : History.fullAt? l.history.recent height = some r) : headAt heads height = some r := by
  obtain ⟨hget, -⟩ := fullAt?_eq_some hr
  rw [h.tiers.recent] at hget
  split at hget
  · exact hget
  · cases hget

/-- A full registry in the archive is the head published at its height, and all before it have
left the recent ones. -/
theorem OnCourse.headAt_of_archive (h : OnCourse suite feed l heads) {height : Nat} {r : Registry}
    (hr : History.fullAt? l.history.archive height = some r) :
    headAt heads height = some r ∧ height + 1 < l.head.height ∧
      height ≤ l.head.height - recentBlocks := by
  obtain ⟨hget, hfull⟩ := fullAt?_eq_some hr
  rw [h.tiers.archive] at hget
  split at hget
  · rename_i hretired
    obtain ⟨p, hp, harchived⟩ := Option.bind_eq_some_iff.1 hget
    unfold History.archived? at harchived
    split at harchived
    · cases harchived
      cases hfull
    · split at harchived
      · cases harchived
        exact ⟨hp, hretired⟩
      · cases harchived
  · cases hget

/-- Every height whose votes may be asked for above an archived one is archived with its
quorums. -/
theorem neededByVotes_of_sample {height sample : Nat} (hsample : sample % archiveInterval = 0)
    (hlow : height < sample) (hlive : sample + 1 ≤ height + voteLifetime) :
    History.neededByVotes height = true := by
  unfold History.neededByVotes History.nextArchived
  have hlifetime : voteLifetime = 60 := rfl
  unfold archiveInterval at hsample ⊢
  rw [decide_eq_true_eq]
  omega

/-- The registry resumed from the archive recalls the quorums of the heads below it. -/
theorem OnCourse.recalls_of_archive (h : OnCourse suite feed l heads) {sample : Nat}
    {r : Registry} (hsample : sample % archiveInterval = 0)
    (hr : History.fullAt? l.history.archive sample = some r) {history : History}
    (hrecent : history.recent = ∅)
    (harchive : history.archive = l.history.archive.filter fun k _ => decide (k < sample)) :
    (HistoryView.of r history).Recalls (quorumAt heads) (sample + 1) := by
  obtain ⟨hhead, hretired⟩ := h.headAt_of_archive hr
  have hheight := (mem_of_headAt hhead).2
  refine ⟨rfl, fun height hlow hlive => ?_⟩
  rw [HistoryView.obligations?_of, hheight]
  by_cases heq : sample = height
  · rw [if_pos heq, quorumAt, ← heq, hhead]
    rfl
  · rw [if_neg heq, History.at?, hrecent, harchive, SortedMap.get?_filter, h.tiers.archive,
      if_pos (by omega)]
    -- What votes above the sample may name is archived with it.
    have hneeded := neededByVotes_of_sample hsample (by omega) hlive
    unfold quorumAt
    cases hp : headAt heads height with
    | none => rfl
    | some p =>
        have hbelow : height < sample := by omega
        simp [History.archived?, hneeded, Option.filter, hbelow, Registry.toQuorumsOnly]

/-- There is a block of the feed at every height above the start up to the head. -/
theorem OnCourse.exists_block (h : OnCourse suite feed l heads) {height : Nat}
    (hlow : l.settings.startHeight < height) (hhigh : height ≤ l.head.height) :
    ∃ e ∈ feed, e.1.height = height := by
  obtain ⟨r, hr⟩ := h.every (height - 1) (by omega) (by omega)
  obtain ⟨next, hnext⟩ := h.every height (by omega) hhigh
  have hsucc : height - 1 + 1 = height := by omega
  have hlead := h.leads (height - 1) r next hr (by rw [hsucc]; exact hnext)
  cases hlead with
  | @block ctx block txs top _ _ outcome _ _ _ _ _ fed _ applied =>
      have hblock := Registry.height_of_apply applied
      exact ⟨(block, txs), fed, by rw [← hblock, (mem_of_headAt hnext).2]⟩

/-- The number of blocks to apply again, counted from a height that the chain reaches. -/
theorem OnCourse.currentHeight_eq (h : OnCourse suite feed l heads) {height : Nat}
    (hshows : s.chain.Shows feed (height + 1)) (hlow : l.settings.startHeight < height)
    (hhigh : height ≤ l.head.height) : s.chain.currentHeight = height + 1 := by
  obtain ⟨e, he, hheight⟩ := h.exists_block hlow hhigh
  exact hshows.currentHeight_eq he hheight

/-- The blocks below a height, applied again from a published head on, lead to the head
published just below it. -/
theorem OnCourse.replayBelow_exact (h : OnCourse suite feed l heads)
    (hchain : feed.IsChain l.settings.startHeight) (hsuite : s.suite = suite) {height : Nat}
    (hshows : s.chain.Shows feed (height + 1)) (hhigh : height ≤ l.head.height)
    (l₀ : LiveRegistry) (hsettings : l₀.settings = l.settings)
    (hhead : headAt heads l₀.head.height = some l₀.head)
    (hrecalls : l₀.view.Recalls (quorumAt heads) (l₀.head.height + 1))
    (hbelow : l₀.head.height ≤ height) (top : Nat)
    (htop : top - (l₀.head.height + 1) = height - l₀.head.height) :
    ∃ l', l₀.replayBelow s top = (.ok (), l') ∧ headAt heads height = some l'.head ∧
      l'.view.Recalls (quorumAt heads) (l'.head.height + 1) ∧ l'.settings = l.settings := by
  have hstart := (h.bounds _ (mem_of_headAt hhead).1).1
  rw [← withoutLost_never (quorumAt heads)] at hrecalls
  have hkept : KeptUpwards heads fun _ => True := fun _ _ _ _ _ _ => trivial
  obtain ⟨l', hdone, hlast, hrecalls', -, hsettings'⟩ := replay_of_leads hkept hchain hsuite hshows
    (fun k hge hle => h.every k (by omega) hle)
    (by unfold rules; rw [hsettings]; exact h.leads) (fun _ hlost => hlost.elim) hhead hrecalls
    trivial (height - l₀.head.height) (show _ ≤ l.head.height by omega) (by omega)
    (noneRests_never s feed _ _ _)
  have hsum : l₀.head.height + (height - l₀.head.height) = height := by omega
  rw [hsum] at hlast
  rw [withoutLost_never] at hrecalls'
  refine ⟨l', ?_, hlast, hrecalls', hsettings'.trans hsettings⟩
  unfold replayBelow
  rw [htop]
  exact hdone

theorem reset_of_writable (l : LiveRegistry) (hwritable : s.writeFault = none) :
    ∃ empty, l.reset s = (.ok (), empty) := by
  unfold reset
  rw [hwritable]
  exact ⟨_, rfl⟩

/-- An emptied registry with the same settings stands at the first published head. -/
theorem OnCourse.reset_exact (h : OnCourse suite feed l heads) {l₀ empty : LiveRegistry}
    (hsettings : l₀.settings = l.settings) (hreset : l₀.reset s = (.ok (), empty)) :
    empty.settings = l.settings ∧ empty.head.height = l.settings.startHeight ∧
      headAt heads empty.head.height = some empty.head ∧
      empty.view.Recalls (quorumAt heads) (empty.head.height + 1) := by
  obtain ⟨hempty, hhead, hrecent, harchive, -, -⟩ := reset_eq_ok hreset
  rw [hsettings] at hempty hhead
  have hheight : empty.head.height = l.settings.startHeight := by
    rw [hhead]
    rfl
  refine ⟨hempty, hheight, ?_, ?_⟩
  · rw [hheight, hhead]
    exact h.first
  · refine HistoryView.recalls_of_empty hrecent harchive ?_ fun k hk => ?_
    · rw [quorumAt, hheight, h.first, hhead]
      rfl
    · rw [quorumAt, h.headAt_eq_none (Or.inl (by omega))]
      rfl

/-- Where the chain has no service nodes yet, it was followed no further than to the start. -/
theorem OnCourse.height_eq_start (h : OnCourse suite feed l heads)
    (hscheduled : l.settings.WellScheduled) {l₀ : LiveRegistry}
    (hsettings : l₀.settings = l.settings) (hfork : l₀.chainFork s < HardFork.serviceNodes)
    {height : Nat} (hshows : s.chain.Shows feed (height + 1))
    (hlow : l.settings.startHeight ≤ height) (hhigh : height ≤ l.head.height) :
    height = l.settings.startHeight := by
  have hbefore : ¬ l.settings.startHeight < s.chain.currentHeight - 1 := by
    intro hlt
    have hserviceNodes := (Settings.serviceNodes_le_forkAt_iff hscheduled _).2 hlt
    unfold chainFork at hfork
    rw [hsettings] at hfork
    exact HardFork.not_lt.2 hserviceNodes hfork
  by_cases hlt : l.settings.startHeight < height
  · have := h.currentHeight_eq hshows hlt hhigh
    omega
  · omega

/-- A start without a usable snapshot, over a chain that was followed before, leads to the head
published at the chain's last height, and recalls all quorums below it. -/
theorem OnCourse.init_exact (h : OnCourse suite feed l heads)
    (hscheduled : l.settings.WellScheduled) (hchain : feed.IsChain l.settings.startHeight)
    (hsuite : s.suite = suite) (hwritable : s.writeFault = none) {height : Nat}
    (hshows : s.chain.Shows feed (height + 1)) (hlow : l.settings.startHeight ≤ height)
    (hhigh : height ≤ l.head.height) (l₀ : LiveRegistry) (hsettings : l₀.settings = l.settings)
    (hload : ¬ l₀.chainFork s < HardFork.serviceNodes →
      ¬ ((l₀.load s s.chain.currentHeight).1 = .ok true ∧
        (l₀.load s s.chain.currentHeight).2.isUsable s = true)) :
    ∃ l', l₀.init s = (.ok (), l') ∧ headAt heads height = some l'.head ∧
      l'.view.Recalls (quorumAt heads) (l'.head.height + 1) ∧ l'.settings = l.settings := by
  by_cases hfork : l₀.chainFork s < HardFork.serviceNodes
  · have hstart := h.height_eq_start hscheduled hsettings hfork hshows hlow hhigh
    obtain ⟨empty, hreset⟩ := reset_of_writable l₀ hwritable
    obtain ⟨hempty, hheight, hhead, hrecalls⟩ := h.reset_exact hsettings hreset
    refine ⟨empty, ?_, ?_, hrecalls, hempty⟩
    · unfold init
      rw [if_pos hfork]
      exact hreset
    · rw [hstart, ← hheight]
      exact hhead
  · have hloaded := (load_keeps l₀ s s.chain.currentHeight).1.trans hsettings
    rw [init_of_unloaded hfork (hload hfork)]
    obtain ⟨empty, hreset⟩ := reset_of_writable (l₀.load s s.chain.currentHeight).2 hwritable
    obtain ⟨hempty, hheight, hhead, hrecalls⟩ := h.reset_exact hloaded hreset
    rw [hreset]
    refine h.replayBelow_exact hchain hsuite hshows hhigh empty hempty hhead hrecalls
      (by omega) _ ?_
    -- At the start the chain may be shorter, and there is nothing to apply again.
    have hle := hshows.currentHeight_le
    rw [hheight]
    by_cases hlt : l.settings.startHeight < height
    · rw [h.currentHeight_eq hshows hlt hhigh]
      omega
    · omega

/-- Going back is exact. Once a registry that started without a snapshot has followed a chain
up to some height, and the chain then holds exactly the blocks below an earlier or the same
height, the registry goes back without an error to the head that it published when the height
below that was first reached. -/
theorem Follows.detach_exact (h : Follows suite feed l heads)
    (hscheduled : l.settings.WellScheduled) (hchain : feed.IsChain l.settings.startHeight)
    (hsuite : s.suite = suite) (hwritable : s.writeFault = none) {height : Nat}
    (hlow : l.settings.startHeight < height) (hhigh : height ≤ l.head.height + 1)
    (hshows : s.chain.Shows feed height) :
    ∃ l', l.detach s height = (.ok (), l') ∧ headAt heads (height - 1) = some l'.head := by
  have hcourse := h.onCourse
  obtain ⟨below, rfl⟩ : ∃ below, height = below + 1 := ⟨height - 1, by omega⟩
  rw [Nat.add_sub_cancel]
  unfold detach History.rewind
  rw [Nat.add_sub_cancel]
  cases hrecent : History.fullAt? l.history.recent below with
  | some r => exact ⟨_, rfl, hcourse.headAt_of_recent hrecent⟩
  | none =>
      dsimp only
      generalize hsample : below - below % archiveInterval = sample
      -- Only every `archiveInterval`-th registry is archived in full.
      have hmultiple : sample % archiveInterval = 0 := by
        rw [← hsample]
        unfold archiveInterval
        omega
      cases harchive : History.fullAt? l.history.archive sample with
      | some r =>
          dsimp only
          obtain ⟨hhead, -⟩ := hcourse.headAt_of_archive harchive
          have hheight := (mem_of_headAt hhead).2
          have hle := hshows.currentHeight_le
          -- As many blocks are applied again as lie between the sample and the height below.
          have htop : min (below + 1) s.chain.currentHeight - (sample + 1) = below - sample := by
            by_cases hlt : l.settings.startHeight < below
            · have hcurrent := hcourse.currentHeight_eq hshows hlt (by omega)
              omega
            · have hfirst := (hcourse.bounds r (mem_of_headAt hhead).1).1
              omega
          obtain ⟨l', hdone, hlast, -, -⟩ := hcourse.replayBelow_exact hchain hsuite hshows
            (by omega)
            { l with head := r, history := { l.history with
              recent := ∅
              archive := l.history.archive.filter fun k _ => decide (k < sample) } } rfl
            (by dsimp only; rw [hheight]; exact hhead)
            (by
              dsimp only
              rw [hheight]
              exact hcourse.recalls_of_archive hmultiple harchive rfl rfl)
            (by dsimp only; omega) (min (below + 1) s.chain.currentHeight)
            (by dsimp only; rw [hheight]; exact htop)
          exact ⟨l', hdone, hlast⟩
      | none =>
          dsimp only
          obtain ⟨l', hdone, hlast, -, -⟩ := hcourse.init_exact hscheduled hchain hsuite hwritable
            hshows (by omega) (by omega)
            { l with history := { l.history with recent := ∅, archive := ∅ } } rfl
            fun _ hloaded => (load_of_noSnapshot hcourse.noSnapshot _).1 hloaded.1
          exact ⟨l', hdone, hlast⟩

end Back

end LiveRegistry

/-! ## A short chain -/

/-- Plain blocks from a height on. -/
def Feed.plain (fork : HardFork) (first count : Nat) : Feed :=
  (List.range' first count).map fun height => (Block.plain height fork, [])

/-- The fake chain with service nodes from height five on. -/
def Settings.early : Settings :=
  ⟨.fakechain, 0, false, [⟨.v7, 0⟩, ⟨.v9, 5⟩], none⟩

namespace LiveRegistry

/-- An operation that answers no error is done. -/
theorem done_of_toOption {ε : Type} {r : LiveResult ε Unit} (h : r.1.toOption = some ()) :
    r = (.ok (), r.2) := by
  rw [← eq_ok_of_toOption h]

/-- Three plain blocks on the fake chain: the registry goes back below the second one. -/
theorem Follows.detach_exact_after_three_blocks :
    ∃ l heads s l', Follows .standard (.plain .v9 5 3) l heads ∧ l.head.height = 7 ∧
      l.detach s 6 = (.ok (), l') ∧ l'.head.height = 5 ∧ headAt heads 5 = some l'.head := by
  let feed : Feed := .plain .v9 5 3
  have hfeed : feed.Consistent := ⟨by decide, by decide, by decide⟩
  have hchain : feed.IsChain 4 := ⟨by decide, by decide⟩
  let s (top : Nat) : Surroundings := ⟨.standard, feed.reader top, 0, none, none, 0⟩
  let l := start .early ∅ []
  let l₁ := (l.init (s 6)).2
  let l₂ := (l₁.addBlock (s 7) (.plain 6 .v9) [] none).2
  let l₃ := (l₂.addBlock (s 8) (.plain 7 .v9) [] none).2
  have h₁ : Follows .standard feed l₁ _ :=
    .init rfl rfl (feed.shows_reader hfeed 6) (done_of_toOption (by decide +kernel))
  have h₂ : Follows .standard feed l₂ _ :=
    .add h₁ (List.mem_map.2 ⟨6, by decide, rfl⟩) rfl (feed.shows_reader hfeed 7) (by decide)
      (done_of_toOption (by decide +kernel))
  have h₃ : Follows .standard feed l₃ _ :=
    .add h₂ (List.mem_map.2 ⟨7, by decide, rfl⟩) rfl (feed.shows_reader hfeed 8) (by decide)
      (done_of_toOption (by decide +kernel))
  have hsettings : l₃.settings.WellScheduled := by
    exact ⟨by decide +kernel, by decide +kernel⟩
  have hstart : l₃.settings.startHeight = 4 := by decide +kernel
  have htop : l₃.head.height = 7 := by decide +kernel
  rw [← hstart] at hchain
  obtain ⟨l', hdone, hhead⟩ := h₃.detach_exact (s := s 6) hsettings hchain rfl rfl
    (by rw [hstart]; decide) (by rw [htop]; decide) (feed.shows_reader hfeed 6)
  exact ⟨l₃, _, s 6, l', h₃, htop, hdone, (mem_of_headAt hhead).2, hhead⟩

end LiveRegistry

end StakeRegistry
