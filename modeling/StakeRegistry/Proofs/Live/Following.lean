import StakeRegistry.Proofs.Chain.Feed
import StakeRegistry.Proofs.Live.Adding
import StakeRegistry.Proofs.Live.Loading
import StakeRegistry.Proofs.Network.Schedule
import StakeRegistry.Proofs.Transition.Agreement

/-!
# Following a chain

A live registry that starts without a snapshot and takes the blocks of a feed publishes one
head after the other (`LiveRegistry.Follows`). What such a run leaves behind is known exactly
(`LiveRegistry.OnCourse`): the heads come one for each height, each follows from the one below
it by a block of the feed, and the tiers of history hold just what they should. Main
statements:

* `OnCourse.advance`: one more block keeps a registry on course;
* `Follows.onCourse`: a registry that follows a chain is on course.
-/

set_option autoImplicit false

namespace StakeRegistry

/-! ## Heads by height -/

/-- The head that was published at a height first. -/
def headAt (heads : List Registry) (height : Nat) : Option Registry :=
  heads.find? fun r => r.height == height

/-- The obligations quorum of the head that was published at a height. -/
def quorumAt (heads : List Registry) (height : Nat) : Option Quorum :=
  (headAt heads height).bind (·.quorums.obligations)

theorem mem_of_headAt {heads : List Registry} {height : Nat} {r : Registry}
    (h : headAt heads height = some r) : r ∈ heads ∧ r.height = height :=
  ⟨List.mem_of_find?_eq_some h, by simpa using List.find?_some h⟩

theorem headAt_append (heads : List Registry) (next : Registry) (height : Nat) :
    headAt (heads ++ [next]) height =
      (headAt heads height).or (if next.height = height then some next else none) := by
  unfold headAt
  rw [List.find?_append, List.find?_singleton]
  simp

theorem headAt_append_of_ne (heads : List Registry) {next : Registry} {height : Nat}
    (h : next.height ≠ height) : headAt (heads ++ [next]) height = headAt heads height := by
  rw [headAt_append, if_neg h, Option.or_none]

/-! ## One head after the other -/

/-- A block of the feed makes the second registry of the first, when its votes are counted by
the quorums of the heads below it and the chain shows all blocks below it. -/
inductive Leads (rules : NetworkRules) (suite : CryptoSuite) (feed : Feed)
    (quorums : Nat → Option Quorum) : Registry → Registry → Prop where
  | block {ctx : Context} {block : Block} {txs : List Transaction} {top : Nat}
      {r next : Registry} {outcome : Outcome}
      (rules_eq : ctx.rules = rules) (suite_eq : ctx.suite = suite)
      (shows : ctx.chain.Shows feed top) (below : block.height ≤ top)
      (recalls : ctx.view.Recalls quorums block.height)
      (fed : (block, txs) ∈ feed) (fork : HardFork.serviceNodes ≤ block.fork)
      (applied : r.apply ctx block txs = .ok (next, outcome)) :
      Leads rules suite feed quorums r next

/-- Only the quorums below a head matter to it. -/
theorem Leads.congr {rules : NetworkRules} {suite : CryptoSuite} {feed : Feed}
    {quorums quorums' : Nat → Option Quorum} {r next : Registry}
    (h : Leads rules suite feed quorums r next)
    (hsame : ∀ height, height < next.height → quorums' height = quorums height) :
    Leads rules suite feed quorums' r next := by
  cases h with
  | block rules_eq suite_eq shows below recalls fed fork applied =>
      have hheight := Registry.height_of_apply applied
      refine .block rules_eq suite_eq shows below (recalls.congr fun height hlow => ?_) fed fork
        applied
      exact hsame height (by omega)

namespace LiveRegistry

/-! ## Runs -/

/-- The heads that are published while canonical blocks of some heights are applied again. -/
def replayHeads (s : Surroundings) : List Nat → LiveRegistry → List Registry
  | [], _ => []
  | height :: heights, l =>
      match s.chain.blockAt? height with
      | none => []
      | some block =>
          if block.fork < HardFork.serviceNodes then replayHeads s heights l
          else match l.advance s block (s.chain.transactionsOf block) none false with
          | .error _ => []
          | .ok (_, next) => next.head :: replayHeads s heights next

/-- The heads that a start without a snapshot publishes: the empty registry, and then one for
each block that the chain already has. -/
def initHeads (l : LiveRegistry) (s : Surroundings) : List Registry :=
  let empty := ((l.load s s.chain.currentHeight).2.reset s).2
  Registry.new l.settings.startHeight ::
    if l.chainFork s < HardFork.serviceNodes then []
    else
      replayHeads s (List.range' (empty.head.height + 1)
        (s.chain.currentHeight - (empty.head.height + 1))) empty

/-- A live registry that was started on a store without a snapshot and then took blocks of a
feed, with all heads that it published, in order. Whenever it takes a block the chain shows at
least the blocks below it. -/
inductive Follows (suite : CryptoSuite) (feed : Feed) : LiveRegistry → List Registry → Prop where
  | init {l l' : LiveRegistry} {s : Surroundings} {top : Nat}
      (noSnapshot : l.store.get? Store.shortTermKey = none) (suite_eq : s.suite = suite)
      (shows : s.chain.Shows feed top) (done : l.init s = (.ok (), l')) :
      Follows suite feed l' (l.initHeads s)
  | add {l l' : LiveRegistry} {heads : List Registry} {s : Surroundings} {top : Nat}
      {block : Block} {txs : List Transaction} {checkpoint : Option Checkpoint}
      (follows : Follows suite feed l heads) (fed : (block, txs) ∈ feed)
      (suite_eq : s.suite = suite)
      (shows : s.chain.Shows feed top) (below : block.height ≤ top)
      (done : l.addBlock s block txs checkpoint = (.ok (), l')) :
      Follows suite feed l'
        (if block.fork < HardFork.serviceNodes then heads else heads ++ [l'.head])

/-! ## The invariant -/

/-- What a run leaves behind. -/
structure OnCourse (suite : CryptoSuite) (feed : Feed) (l : LiveRegistry)
    (heads : List Registry) : Prop where
  /-- The first head is the empty registry. -/
  first : headAt heads l.settings.startHeight = some (Registry.new l.settings.startHeight)
  /-- The last head is the head. -/
  last : headAt heads l.head.height = some l.head
  bounds : ∀ r ∈ heads, l.settings.startHeight ≤ r.height ∧ r.height ≤ l.head.height
  /-- There is a head for every height in between. -/
  every : ∀ height, l.settings.startHeight ≤ height → height ≤ l.head.height →
    ∃ r, headAt heads height = some r
  full : ∀ r ∈ heads, r.quorumsOnly = false
  leads : ∀ height r next, headAt heads height = some r → headAt heads (height + 1) = some next →
    Leads l.rules suite feed (quorumAt heads) r next
  tiers : l.history.Holds (headAt heads) l.head.height
  recalls : l.view.Recalls (quorumAt heads) (l.head.height + 1)
  noSnapshot : l.store.get? Store.shortTermKey = none
  unsaved : l.savedVersion = none

section Runs

variable {suite : CryptoSuite} {feed : Feed} {l l' next : LiveRegistry} {heads : List Registry}
  {s : Surroundings} {top : Nat}

/-- No head was published below the first one or above the last one. -/
theorem OnCourse.headAt_eq_none (h : OnCourse suite feed l heads) {height : Nat}
    (hout : height < l.settings.startHeight ∨ l.head.height < height) :
    headAt heads height = none := by
  cases hr : headAt heads height with
  | none => rfl
  | some r =>
      obtain ⟨hmem, hheight⟩ := mem_of_headAt hr
      have hbounds := h.bounds r hmem
      omega

/-- Effects do not lead off course. -/
theorem OnCourse.of_samePast (h : OnCourse suite feed l heads) (hpast : l.SamePast l') :
    OnCourse suite feed l' heads := by
  obtain ⟨hsettings, hhead, hhistory, hsaved, hshort, -⟩ := hpast
  refine ⟨?_, ?_, ?_, ?_, h.full, ?_, ?_, ?_, ?_, ?_⟩
  · rw [hsettings]
    exact h.first
  · rw [hhead]
    exact h.last
  · rw [hsettings, hhead]
    exact h.bounds
  · rw [hsettings, hhead]
    exact h.every
  · unfold LiveRegistry.rules
    rw [hsettings]
    exact h.leads
  · rw [hhead, hhistory]
    exact h.tiers
  · unfold LiveRegistry.view
    rw [hhead, hhistory]
    exact h.recalls
  · rw [hshort]
    exact h.noSnapshot
  · rw [hsaved]
    exact h.unsaved

/-! ## One more head -/

theorem quorumAt_append_of_ne (heads : List Registry) {next : Registry} {height : Nat}
    (h : next.height ≠ height) : quorumAt (heads ++ [next]) height = quorumAt heads height := by
  rw [quorumAt, headAt_append_of_ne heads h, quorumAt]

/-- The next head is the one found at its height. -/
theorem OnCourse.headAt_append_self (h : OnCourse suite feed l heads) {head : Registry}
    (hheight : head.height = l.head.height + 1) :
    headAt (heads ++ [head]) head.height = some head := by
  rw [headAt_append, h.headAt_eq_none (Or.inr (by omega)), if_pos rfl]
  rfl

/-- With the next head, every head still comes from the one below it. -/
theorem OnCourse.leads_append (h : OnCourse suite feed l heads) {head : Registry}
    (hheight : head.height = l.head.height + 1)
    (hhead : Leads l.rules suite feed (quorumAt heads) l.head head) (height : Nat)
    (r next : Registry) (hr : headAt (heads ++ [head]) height = some r)
    (hnext : headAt (heads ++ [head]) (height + 1) = some next) :
    Leads l.rules suite feed (quorumAt (heads ++ [head])) r next := by
  have hquorums : ∀ k, k < head.height → quorumAt (heads ++ [head]) k = quorumAt heads k :=
    fun k hk => quorumAt_append_of_ne heads (by omega)
  have hrange := mem_of_headAt hnext
  by_cases heq : height = l.head.height
  · -- The new head comes from the old one by the block just taken.
    subst heq
    have hr : r = l.head := by
      rw [headAt_append_of_ne heads (by omega), h.last] at hr
      exact (Option.some.inj hr).symm
    have hnext : next = head := by
      rw [← hheight, h.headAt_append_self hheight] at hnext
      exact (Option.some.inj hnext).symm
    rw [hr, hnext]
    exact hhead.congr hquorums
  · have hbelow : height + 1 < head.height := by
      -- A head found above the old one can only be the new one.
      rcases List.mem_append.1 hrange.1 with hmem | hmem
      · have hbounds := h.bounds next hmem
        omega
      · rw [List.mem_singleton.1 hmem] at hrange
        omega
    rw [headAt_append_of_ne heads (by omega)] at hr hnext
    refine (h.leads height r next hr hnext).congr fun k hk => hquorums k ?_
    omega

/-- One more block of the feed keeps a registry on course. -/
theorem OnCourse.advance (h : OnCourse suite feed l heads) (hsuite : s.suite = suite)
    (hshows : s.chain.Shows feed top) {block : Block} {txs : List Transaction}
    (hbelow : block.height ≤ top) (hfed : (block, txs) ∈ feed)
    (hfork : HardFork.serviceNodes ≤ block.fork) {checkpoint : Option Checkpoint} {verify : Bool}
    {outcome : Outcome}
    (hadvance : l.advance s block txs checkpoint verify = .ok (outcome, next)) :
    OnCourse suite feed next (heads ++ [next.head]) := by
  obtain ⟨head, happly, -, rfl⟩ := advance_eq_ok_iff.1 hadvance
  have hblock : head.height = block.height := Registry.height_of_apply happly
  have hbefore : l.head.height + 1 = block.height := Registry.height_before_apply happly
  have hheight : head.height = l.head.height + 1 := by omega
  have hold : ∀ k, k < head.height → headAt (heads ++ [head]) k = headAt heads k :=
    fun k hk => headAt_append_of_ne heads (by omega)
  have hnew := h.headAt_append_self hheight
  have hstart := (h.bounds l.head (mem_of_headAt h.last).1).1
  have hhead : Leads l.rules suite feed (quorumAt heads) l.head head := by
    refine .block rfl hsuite hshows hbelow ?_ hfed hfork happly
    rw [← hbefore]
    exact h.recalls
  rw [← hblock]
  dsimp only
  refine ⟨?_, hnew, ?_, ?_, ?_, h.leads_append hheight hhead, ?_, ?_, h.noSnapshot, h.unsaved⟩
  · show headAt (heads ++ [head]) l.settings.startHeight = _
    rw [hold _ (by omega)]
    exact h.first
  · intro r hr
    show l.settings.startHeight ≤ r.height ∧ r.height ≤ head.height
    rcases List.mem_append.1 hr with hr | hr
    · have hbounds := h.bounds r hr
      omega
    · rw [List.mem_singleton.1 hr]
      omega
  · intro height hlow hhigh
    have hhigh : height ≤ head.height := hhigh
    -- Below the new head nothing changes.
    by_cases heq : height = head.height
    · exact ⟨head, heq ▸ hnew⟩
    · rw [hold height (by omega)]
      exact h.every height hlow (by omega)
  · intro r hr
    rcases List.mem_append.1 hr with hr | hr
    · exact h.full r hr
    · rw [List.mem_singleton.1 hr, Registry.quorumsOnly_of_apply happly]
      exact h.full l.head (mem_of_headAt h.last).1
  · show (l.history.push head.height l.head).Holds (headAt (heads ++ [head])) head.height
    rw [hheight]
    refine (h.tiers.congr fun k hk => hold k (by omega)).push rfl ?_
    rw [hold _ (by omega)]
    exact h.last
  · refine HistoryView.recalls_push (h.recalls.congr fun k hk => ?_) hheight ?_
    · exact quorumAt_append_of_ne heads (by omega)
    · rw [quorumAt, hnew]
      rfl

/-- Blocks applied again keep a registry on course. -/
theorem OnCourse.replay (h : OnCourse suite feed l heads) (hsuite : s.suite = suite)
    (hshows : s.chain.Shows feed top) {heights : List Nat}
    (hdone : replay s heights l = (.ok (), l')) :
    OnCourse suite feed l' (heads ++ replayHeads s heights l) := by
  -- Over the heights: each block that is applied adds one head.
  induction heights generalizing l heads with
  | nil =>
      cases hdone
      rw [replayHeads, List.append_nil]
      exact h
  | cons height heights ih =>
      unfold LiveRegistry.replay at hdone
      unfold replayHeads
      cases hblock : s.chain.blockAt? height with
      | none =>
          rw [hblock] at hdone
          cases hdone
      | some block =>
          rw [hblock] at hdone
          dsimp only at hdone ⊢
          by_cases hfork : block.fork < HardFork.serviceNodes
          · rw [if_pos hfork] at hdone ⊢
            exact ih h hdone
          · rw [if_neg hfork] at hdone ⊢
            obtain ⟨hheight, hlow, hmem⟩ := hshows.mem_of_blockAt? hblock
            cases hadvance : l.advance s block (s.chain.transactionsOf block) none false with
            | error e =>
                rw [hadvance] at hdone
                cases hdone
            | ok p =>
                obtain ⟨outcome, next⟩ := p
                rw [hadvance] at hdone
                have hnext := h.advance hsuite hshows (by omega) hmem (HardFork.not_lt.1 hfork)
                  hadvance
                have hrest := ih hnext hdone
                rwa [List.append_assoc, List.singleton_append] at hrest

/-! ## Starting -/

/-- What is left when a registry was emptied. -/
theorem reset_eq_ok (h : l.reset s = (.ok (), l')) :
    l'.settings = l.settings ∧ l'.head = Registry.new l.settings.startHeight ∧
      l'.history.recent = ∅ ∧ l'.history.archive = ∅ ∧ l'.savedVersion = none ∧
      l'.store.get? Store.shortTermKey = none := by
  unfold reset at h
  split at h
  · cases h
  · cases h
    refine ⟨rfl, rfl, rfl, rfl, rfl, ?_⟩
    show ((l.store.erase Store.longTermKey).erase Store.shortTermKey).get? Store.shortTermKey = none
    rw [SortedMap.get?_erase, if_pos rfl]

/-- An emptied registry is on course, with one head. -/
theorem onCourse_of_reset (h : l.reset s = (.ok (), l')) :
    OnCourse suite feed l' [Registry.new l.settings.startHeight] := by
  obtain ⟨hsettings, hhead, hrecent, harchive, hsaved, hshort⟩ := reset_eq_ok h
  have hheight : l'.head.height = l.settings.startHeight := by
    rw [hhead]
    rfl
  have hfirst : headAt [Registry.new l.settings.startHeight] l.settings.startHeight =
      some (Registry.new l.settings.startHeight) := by
    simp [headAt, Registry.new]
  have hbelow : ∀ height, height < l'.head.height →
      headAt [Registry.new l.settings.startHeight] height = none := by
    intro height hlow
    have hne : l.settings.startHeight ≠ height := by omega
    simp [headAt, Registry.new, hne]
  refine ⟨?_, ?_, ?_, ?_, ?_, ?_, ?_, ?_, hshort, hsaved⟩
  · rw [hsettings]
    exact hfirst
  · rw [hheight, hhead]
    exact hfirst
  · intro r hr
    rw [List.mem_singleton.1 hr, hheight, hsettings]
    exact ⟨Nat.le_refl _, Nat.le_refl _⟩
  · intro height hlow hhigh
    have heq : height = l.settings.startHeight := by
      rw [hsettings] at hlow
      omega
    rw [heq]
    exact ⟨_, hfirst⟩
  · intro r hr
    rw [List.mem_singleton.1 hr]
    rfl
  · intro height r next hr hnext
    have hrange := (mem_of_headAt hr).2
    have hrange' := (mem_of_headAt hnext).2
    rw [List.mem_singleton.1 (mem_of_headAt hr).1] at hrange
    rw [List.mem_singleton.1 (mem_of_headAt hnext).1] at hrange'
    omega
  · exact .ofEmpty hrecent harchive hbelow
  · refine HistoryView.recalls_of_empty hrecent harchive ?_ fun height hlow => ?_
    · rw [quorumAt, hheight, hfirst, hhead]
      rfl
    · rw [quorumAt, hbelow height hlow]
      rfl

/-- Starting without a usable snapshot once service nodes exist: the registry is emptied, and
the blocks of the chain are applied. -/
theorem init_of_unloaded (hfork : ¬ l.chainFork s < HardFork.serviceNodes)
    (hload : ¬ ((l.load s s.chain.currentHeight).1 = .ok true ∧
      (l.load s s.chain.currentHeight).2.isUsable s = true)) :
    l.init s = match (l.load s s.chain.currentHeight).2.reset s with
      | (.error e, l) => (.error e, l)
      | (.ok (), l) => l.replayBelow s s.chain.currentHeight := by
  unfold init
  rw [if_neg hfork]
  generalize l.load s s.chain.currentHeight = loaded at hload
  obtain ⟨answer, l₁⟩ := loaded
  dsimp only at hload ⊢
  refine (if_neg ?_).trans rfl
  rintro ⟨hanswer, husable⟩
  refine hload ⟨?_, husable⟩
  split at hanswer
  · rfl
  · cases hanswer

/-- Starting from a usable snapshot once service nodes exist: the blocks above it are applied. -/
theorem init_of_loaded (hfork : ¬ l.chainFork s < HardFork.serviceNodes)
    (hload : (l.load s s.chain.currentHeight).1 = .ok true)
    (husable : (l.load s s.chain.currentHeight).2.isUsable s = true) :
    l.init s = (l.load s s.chain.currentHeight).2.replayBelow s s.chain.currentHeight := by
  unfold init
  rw [if_neg hfork]
  generalize l.load s s.chain.currentHeight = loaded at hload husable
  obtain ⟨answer, l₁⟩ := loaded
  dsimp only at hload husable ⊢
  subst hload
  rw [if_pos ⟨rfl, husable⟩]

/-- A registry that follows a chain is on course. -/
theorem Follows.onCourse (h : Follows suite feed l heads) : OnCourse suite feed l heads := by
  induction h with
  | @init l l' s top noSnapshot suite_eq shows done =>
      unfold initHeads
      dsimp only
      by_cases hfork : l.chainFork s < HardFork.serviceNodes
      · rw [if_pos hfork]
        unfold LiveRegistry.init at done
        rw [if_pos hfork] at done
        exact onCourse_of_reset done
      · rw [if_neg hfork]
        obtain ⟨hanswer, hcleared⟩ := load_of_noSnapshot noSnapshot s.chain.currentHeight
        rw [init_of_unloaded hfork fun hloaded => hanswer hloaded.1] at done
        cases hreset : (l.load s s.chain.currentHeight).2.reset s with
        | mk answer empty =>
            rw [hreset] at done
            cases answer with
            | error e => cases done
            | ok _ =>
                have hempty : OnCourse suite feed empty
                    [Registry.new l.settings.startHeight] := by
                  have hstart : (l.load s s.chain.currentHeight).2.settings = l.settings := by
                    rw [hcleared]
                    rfl
                  rw [← hstart]
                  exact onCourse_of_reset hreset
                exact hempty.replay suite_eq shows done
  | @add l l' heads s top block txs checkpoint follows fed suite_eq shows below done ih =>
      rw [addBlock_eq] at done
      by_cases hfork : block.fork < HardFork.serviceNodes
      · rw [if_pos hfork] at done ⊢
        cases done
        exact ih
      · rw [if_neg hfork] at done ⊢
        cases hadvance : l.advance s block txs checkpoint true with
        | error e =>
            rw [hadvance] at done
            cases done
        | ok p =>
            obtain ⟨outcome, next⟩ := p
            rw [hadvance] at done
            have hnext := ih.advance suite_eq shows below fed (HardFork.not_lt.1 hfork) hadvance
            have hpast := SamePast.afterBlock next s outcome block
            cases done
            rw [hpast.head]
            exact hnext.of_samePast hpast

end Runs

end LiveRegistry

end StakeRegistry
