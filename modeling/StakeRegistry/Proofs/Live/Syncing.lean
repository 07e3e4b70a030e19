import StakeRegistry.Proofs.Live.Storing

/-!
# Starting over a stored snapshot

A registry in sync with a chain (`LiveRegistry.InSync`) stands at a head of the chain, and has
nothing but the chain's quorums on record. Blocks, saving and starting over keep it so. It is saved,
the chain grows or drops blocks, and another one starts over the snapshot. Whatever the start builds
upon is in sync with the chain again, so the blocks above it lead to the chain's heads, unless one
of them rests on a quorum that is not on record any more. But a stored head that lies one above the
last block counts as usable, and is kept. Main statements:

* `InSync.rescan`: blocks applied on top of a registry in sync lead to the heads of the chain;
* `SavedInSync.foundation`: what a start over a snapshot builds upon;
* `Follows.start_in_sync_unless_one_above`: where such a start ends.
-/

set_option autoImplicit false

namespace StakeRegistry

/-- Settings for one chain. -/
structure Settings.SameChain (settings settings' : Settings) : Prop where
  network : settings'.network = settings.network
  schedule : settings'.schedule = settings.schedule

/-- Stores with the same snapshot, whatever records they have. -/
structure Store.SameSnapshot (store store' : Store) : Prop where
  long : store'.get? longTermKey = store.get? longTermKey
  short : store'.get? shortTermKey = store.get? shortTermKey

/-- Registries are kept under their heights, with the quorums of the heads published there. -/
def TrueTo (heads : List Registry) (kept : SortedMap Nat Registry) : Prop :=
  ∀ k r, kept.get? k = some r → r.height = k ∧ r.quorums.obligations = quorumAt heads k

theorem trueTo_empty (heads : List Registry) : TrueTo heads ∅ := fun _ _ hr => nomatch hr

/-- Stored registries have the quorums of the heads published at their heights. -/
def StatesTrueTo (heads : List Registry) (states : List StoredState) : Prop :=
  ∀ state ∈ states, state.quorums.quorums.obligations = quorumAt heads state.height

theorem TrueTo.stored {heads : List Registry} {kept : SortedMap Nat Registry}
    (h : TrueTo heads kept) {pairs : List (Nat × Registry)}
    (hpairs : ∀ p ∈ pairs, p ∈ kept.toList) (form : Nat × Registry → Bool) :
    StatesTrueTo heads (pairs.map fun p => p.2.stored (form p)) := by
  intro state hstate
  obtain ⟨p, hp, rfl⟩ := List.mem_map.1 hstate
  obtain ⟨hheight, hquorum⟩ := h p.1 p.2 (SortedMap.get?_eq_some_iff.2 (hpairs p hp))
  show (StoredQuorums.of p.2.height p.2.quorums).quorums.obligations = quorumAt heads p.2.height
  rw [StoredQuorums.quorums_of, hheight]
  exact hquorum

/-- What is read of stored registries is true to the heads if they are. -/
theorem StatesTrueTo.registries {heads : List Registry} {states : List StoredState}
    (h : StatesTrueTo heads states) (ctx : LoadContext) :
    TrueTo heads (byHeight (states.map (·.registry ctx))) := by
  intro k r hr
  obtain ⟨hmem, rfl⟩ := mem_of_byHeight hr
  obtain ⟨state, hstate, rfl⟩ := List.mem_map.1 hmem
  exact ⟨rfl, h state hstate⟩

/-- A block that retires registries keeps the tiers true, if the old head is. -/
theorem TrueTo.push {heads : List Registry} {h : History} {previous : Registry}
    (hrecent : TrueTo heads h.recent) (harchive : TrueTo heads h.archive)
    (hprevious : headAt heads previous.height = some previous) (blockHeight : Nat) :
    TrueTo heads (h.push blockHeight previous).recent ∧
      TrueTo heads (h.push blockHeight previous).archive := by
  constructor
  · intro k r hr
    rcases History.recent_push_cases _ _ _ hr with ⟨rfl, rfl⟩ | ⟨-, hr⟩
    · exact ⟨rfl, by rw [quorumAt, hprevious]; rfl⟩
    · exact hrecent k r hr
  · intro k r hr
    rcases History.archive_push_cases _ _ _ hr with ⟨-, r', hr', harchived⟩ | hr
    · rw [History.height_of_archived? harchived, History.quorums_of_archived? harchived]
      exact hrecent k r' hr'
    · exact harchive k r hr

namespace LiveRegistry

/-! ## Registries in sync -/

/-- The long-term data in the store is true to the heads. -/
def StoresTrueTo (heads : List Registry) (l : LiveRegistry) : Prop :=
  ∀ data, l.storedData? Store.longTermKey = some data → StatesTrueTo heads data.states

/-- The registry stands at a head of a chain, and the quorums that it has on record are the
chain's; so are those in the long-term data that it has stored. -/
structure InSync (heads : List Registry) (l : LiveRegistry) : Prop where
  head : headAt heads l.head.height = some l.head
  recent : TrueTo heads l.history.recent
  archive : TrueTo heads l.history.archive
  stored : l.savedVersion ≠ none → StoresTrueTo heads l

/-- No obligations quorum is on record for a height below the head. -/
def Lacks (l : LiveRegistry) (height : Nat) : Prop :=
  height < l.head.height ∧ l.view.obligations? height = none

instance (l : LiveRegistry) : DecidablePred l.Lacks := fun _ => inferInstanceAs (Decidable (_ ∧ _))

section Runs

variable {suite : CryptoSuite} {feed : Feed} {l l' m saved fresh : LiveRegistry}
  {heads : List Registry} {s s₀ : Surroundings}

/-- A registry that has followed a chain is in sync with it. -/
theorem OnCourse.inSync (h : OnCourse suite feed l heads) : InSync heads l := by
  refine ⟨h.last, fun k r hr => ?_, fun k r hr => ?_, fun hsaved => absurd h.unsaved hsaved⟩
  · rw [h.tiers.recent] at hr
    split at hr
    · exact ⟨(mem_of_headAt hr).2, by rw [quorumAt, hr]; rfl⟩
    · cases hr
  · rw [h.tiers.archive] at hr
    split at hr
    · obtain ⟨p, hp, harchived⟩ := Option.bind_eq_some_iff.1 hr
      rw [History.height_of_archived? harchived, History.quorums_of_archived? harchived]
      exact ⟨(mem_of_headAt hp).2, by rw [quorumAt, hp]; rfl⟩
    · cases hr

theorem keptUpwards_inSync (heads : List Registry) : KeptUpwards heads (InSync heads) := by
  intro l next h hhead _ hnext
  obtain ⟨hrecent, harchive⟩ := h.recent.push h.archive hhead next.height
  exact ⟨hnext, hrecent, harchive, h.stored⟩

/-- A block that leads to the next head of the chain keeps a registry in sync. -/
theorem InSync.addBlock (h : InSync heads l) {block : Block} {txs : List Transaction}
    {checkpoint : Option Checkpoint}
    (hpublished : headAt heads (l.addBlock s block txs checkpoint).2.head.height =
      some (l.addBlock s block txs checkpoint).2.head) :
    InSync heads (l.addBlock s block txs checkpoint).2 := by
  rcases addBlock_cases l s block txs checkpoint with heq | ⟨outcome, next, hadvance, hpast⟩
  · rw [heq]
    exact h
  · obtain ⟨head, happly, -, rfl⟩ := advance_eq_ok_iff.1 hadvance
    rw [hpast.head] at hpublished
    have hafter : head.height = block.height := Registry.height_of_apply happly
    have hbefore : l.head.height + 1 = block.height := Registry.height_before_apply happly
    have hnext := keptUpwards_inSync heads l head h h.head (by omega) hpublished
    rw [hafter] at hnext
    refine ⟨?_, ?_, ?_, fun hsaved data hdata => ?_⟩
    · rw [hpast.head]
      exact hpublished
    · rw [hpast.history]
      exact hnext.recent
    · rw [hpast.history]
      exact hnext.archive
    · rw [hpast.savedVersion] at hsaved
      unfold storedData? at hdata
      rw [hpast.long] at hdata
      exact hnext.stored hsaved data hdata

/-- Saving keeps a registry in sync, and what is stored then is true to the heads. -/
theorem InSync.save (h : InSync heads l) (hfits : StoredData.codec.Fits l.history.longTerm)
    (hbegun : HardFork.serviceNodes ≤ l.chainFork s) (hsave : l.save s = (.ok (), saved)) :
    InSync heads saved ∧ StoresTrueTo heads saved := by
  obtain ⟨hhead, hhistory, hversion, hstored⟩ := storedData?_save hfits hbegun hsave
  have htrue : StoresTrueTo heads saved := by
    intro data hdata
    rw [hstored] at hdata
    split at hdata
    · cases hdata
      show StatesTrueTo heads (l.history.archive.values.map (·.stored false))
      rw [SortedMap.values, List.map_map]
      exact h.archive.stored (fun _ hp => hp) fun _ => false
    · rename_i hdue
      -- What is not written again has been stored before.
      refine h.stored (fun hnone => hdue ?_) data hdata
      unfold longTermDue
      rw [hnone]
      exact Bool.or_true _
  refine ⟨⟨?_, ?_, ?_, fun _ => htrue⟩, htrue⟩
  · rw [hhead]
    exact h.head
  · rw [hhistory]
    exact h.recent
  · rw [hhistory]
    exact h.archive

/-- A registry in sync recalls the quorums of the chain, but for those that it lacks. -/
theorem InSync.recalls (h : InSync heads l) :
    l.view.Recalls (withoutLost l.Lacks (quorumAt heads)) (l.head.height + 1) := by
  refine ⟨rfl, fun height hlow _ => ?_⟩
  by_cases hlacks : l.Lacks height
  · rw [withoutLost, if_pos hlacks]
    exact hlacks.2
  · rw [withoutLost, if_neg hlacks]
    unfold view
    rw [HistoryView.obligations?_of]
    by_cases heq : l.head.height = height
    · rw [if_pos heq, ← heq, quorumAt, h.head]
      rfl
    · rw [if_neg heq]
      unfold History.at?
      cases hrecent : l.history.recent.get? height with
      | some r => exact (h.recent height r hrecent).2
      | none =>
          cases harchive : l.history.archive.get? height with
          | some r => exact (h.archive height r harchive).2
          | none =>
              -- With no registry on record the height would be lacking.
              refine absurd ⟨by omega, ?_⟩ hlacks
              unfold view
              rw [HistoryView.obligations?_of, if_neg heq, History.at?, hrecent, harchive]
              rfl

/-! ## Applying the blocks above -/

/-- Every block that is applied again moves the head on by one height. -/
theorem height_of_replay {start top : Nat} (hchain : feed.IsChain start)
    (hshows : s.chain.Shows feed top) (steps : Nat) (hlow : start ≤ l.head.height)
    (hdone : replay s (List.range' (l.head.height + 1) steps) l = (.ok (), l')) :
    l'.head.height = l.head.height + steps := by
  induction steps generalizing l with
  | zero =>
      cases hdone
      rfl
  | succ steps ih =>
      rw [List.range'_succ] at hdone
      unfold replay at hdone
      cases hblock : s.chain.blockAt? (l.head.height + 1) with
      | none =>
          rw [hblock] at hdone
          cases hdone
      | some block =>
          obtain ⟨hheight, -, hfed⟩ := hshows.mem_of_blockAt? hblock
          have hfork := hchain.fork _ hfed (by dsimp only; omega)
          rw [hblock] at hdone
          dsimp only at hdone hfork
          rw [if_neg (HardFork.not_lt.2 hfork)] at hdone
          cases hadvance : l.advance s block (s.chain.transactionsOf block) none false with
          | error e =>
              rw [hadvance] at hdone
              cases hdone
          | ok p =>
              obtain ⟨outcome, next⟩ := p
              rw [hadvance] at hdone
              dsimp only at hdone
              obtain ⟨head, happly, -, rfl⟩ := advance_eq_ok_iff.1 hadvance
              have hnext : head.height = block.height := Registry.height_of_apply happly
              rw [show l.head.height + 1 + 1 = head.height + 1 by omega] at hdone
              have hrest := ih (l := { l with
                head := head, history := l.history.push block.height l.head })
                (by dsimp only; omega) hdone
              dsimp only at hrest
              omega

/-- Blocks applied on top of a registry in sync lead to the head of the chain at each height, and
leave it in sync, as long as none of them rests on a quorum that it lacks. -/
theorem InSync.rescan (h : InSync heads l) (hm : OnCourse suite feed m heads)
    (hsame : m.settings.SameChain l.settings) (hchain : feed.IsChain m.settings.startHeight)
    (hsuite : s.suite = suite) {tip : Nat} (hshows : s.chain.Shows feed (tip + 1))
    (htip : tip ≤ m.head.height) (hbelow : l.head.height ≤ tip)
    (hnone : NoneRests s feed l.Lacks (quorumAt heads) l.head.height tip) :
    ∃ l', replay s (List.range' (l.head.height + 1) (tip - l.head.height)) l = (.ok (), l') ∧
      headAt heads tip = some l'.head ∧ InSync heads l' := by
  have hstart := (hm.bounds _ (mem_of_headAt h.head).1).1
  have hrules : l.rules = m.rules := by
    unfold rules Settings.rules
    rw [hsame.network]
  have hsum : l.head.height + (tip - l.head.height) = tip := by omega
  obtain ⟨l', hdone, hlast, -, hsync, -⟩ := replay_of_leads (keptUpwards_inSync heads) hchain hsuite
    hshows (fun k hge hle => hm.every k (by omega) hle)
    (by rw [hrules]; exact hm.leads) (fun k hk => Nat.le_of_lt hk.1) h.head h.recalls h
    (tip - l.head.height) (show _ ≤ m.head.height by omega) (by omega) (by rw [hsum]; exact hnone)
  rw [hsum] at hlast
  exact ⟨l', hdone, hlast, hsync⟩

/-! ## What a start builds upon -/

/-- Once service nodes exist, a start builds upon what it has loaded or upon the empty registry. -/
theorem foundation_of_begun (hbegun : HardFork.serviceNodes ≤ l.chainFork s) :
    l.foundation s =
      if l.resumes s then (l.load s s.chain.currentHeight).2
      else ((l.load s s.chain.currentHeight).2.reset s).2 :=
  if_neg (HardFork.not_lt.2 hbegun)

/-- A start that succeeds once service nodes exist has applied all blocks above what it builds
upon. -/
theorem replayBelow_of_init (hbegun : HardFork.serviceNodes ≤ l.chainFork s)
    (hdone : l.init s = (.ok (), fresh)) :
    (l.foundation s).replayBelow s s.chain.currentHeight = (.ok (), fresh) := by
  have hfork := HardFork.not_lt.2 hbegun
  rw [foundation_of_begun hbegun]
  by_cases hresumes : l.resumes s = true
  · rw [if_pos hresumes]
    rw [init_of_loaded hfork (resumes_iff.1 hresumes).1 (resumes_iff.1 hresumes).2] at hdone
    exact hdone
  · rw [if_neg hresumes]
    rw [init_of_unloaded hfork (mt resumes_iff.2 hresumes)] at hdone
    generalize (l.load s s.chain.currentHeight).2.reset s = emptied at hdone ⊢
    obtain ⟨answer, empty⟩ := emptied
    cases answer with
    | error e => cases hdone
    | ok _ => exact hdone

/-- A head that a start builds upon lies at most one above the last block. -/
theorem height_le_of_resumes (hbegun : HardFork.serviceNodes ≤ l.chainFork s)
    (hresumes : l.resumes s = true) : (l.foundation s).head.height ≤ s.chain.currentHeight := by
  have husable := (resumes_iff.1 hresumes).2
  unfold isUsable at husable
  rw [foundation_of_begun hbegun, if_pos hresumes]
  exact of_decide_eq_true (Bool.and_eq_true_iff.1 husable).2

/-- A registry in sync with a chain was saved while the chain ended at its head. -/
structure SavedInSync (feed : Feed) (heads : List Registry) (settings : Settings)
    (l : LiveRegistry) (s₀ : Surroundings) (saved : LiveRegistry) : Prop where
  sync : InSync heads l
  settings : settings.SameChain l.settings
  ends : s₀.chain.Shows feed (l.head.height + 1)
  begun : HardFork.serviceNodes ≤ l.chainFork s₀
  fits : l.SnapshotFits
  done : l.save s₀ = (.ok (), saved)

/-- A registry is to start over the snapshot in a store, while the chain ends at some height. -/
structure StartsOver (suite : CryptoSuite) (feed : Feed) (settings : Settings) (store : Store)
    (l : LiveRegistry) (s : Surroundings) (tip : Nat) : Prop where
  store : store.SameSnapshot l.store
  settings : settings.SameChain l.settings
  suite_eq : s.suite = suite
  ends : s.chain.Shows feed (tip + 1)
  begun : HardFork.serviceNodes ≤ l.chainFork s

theorem startsOver_start {settings settings' : Settings} (store : Store)
    (ledger : List ReturnedStakes) {tip : Nat} (hsame : settings.SameChain settings')
    (hsuite : s.suite = suite) (hends : s.chain.Shows feed (tip + 1))
    (hbegun : HardFork.serviceNodes ≤ (start settings' store ledger).chainFork s) :
    StartsOver suite feed settings store (start settings' store ledger) s tip :=
  ⟨⟨rfl, rfl⟩, hsame, hsuite, hends, hbegun⟩

/-- Where service nodes exist, a chain that was followed ends above the start. -/
theorem OnCourse.currentHeight_of_begun (hm : OnCourse suite feed m heads)
    (hscheduled : m.settings.WellScheduled) (hsame : m.settings.SameChain l.settings)
    (hbegun : HardFork.serviceNodes ≤ l.chainFork s) {tip : Nat}
    (hshows : s.chain.Shows feed (tip + 1)) (htip : tip ≤ m.head.height) :
    m.settings.startHeight < tip ∧ s.chain.currentHeight = tip + 1 := by
  unfold chainFork at hbegun
  rw [hsame.schedule] at hbegun
  have hlow := (Settings.serviceNodes_le_forkAt_iff hscheduled _).1 hbegun
  have hle := hshows.currentHeight_le
  have hlow : m.settings.startHeight < tip := by omega
  exact ⟨hlow, hm.currentHeight_eq hshows hlow htip⟩

theorem startHeight_of_sameChain {settings settings' : Settings}
    (h : settings.SameChain settings') : settings'.startHeight = settings.startHeight := by
  unfold Settings.startHeight
  rw [h.schedule]

/-- An emptied registry is in sync with every chain that starts at the same height. -/
theorem OnCourse.inSync_reset (hm : OnCourse suite feed m heads)
    (hsame : m.settings.SameChain l.settings) (htrue : StoresTrueTo heads l) :
    InSync heads (l.reset s).2 := by
  have hfirst : headAt heads (Registry.new l.settings.startHeight).height =
      some (Registry.new l.settings.startHeight) := by
    rw [startHeight_of_sameChain hsame]
    exact hm.first
  unfold reset
  cases s.writeFault with
  | some reason => exact ⟨hfirst, trueTo_empty heads, trueTo_empty heads, fun _ => htrue⟩
  | none => exact ⟨hfirst, trueTo_empty heads, trueTo_empty heads, fun hsaved => absurd rfl hsaved⟩

section Start

variable {l₀ : LiveRegistry} {restored : Restored} {currentHeight tip : Nat}
  (h : SavedInSync feed heads m.settings l s₀ saved)

include h

/-- A snapshot that is found over the store is restored from what was saved. -/
theorem SavedInSync.restore_eq_ok (hstore : saved.store.SameSnapshot l₀.store)
    (hsnapshot : l₀.snapshot? s currentHeight = some restored) :
    restore (l₀.loadContext s) (saved.storedData? Store.longTermKey) (l.history.shortTerm l.head)
      currentHeight l₀.history.oldLimit = .ok restored := by
  have hlong : l₀.storedData? Store.longTermKey = saved.storedData? Store.longTermKey := by
    unfold storedData?
    rw [hstore.long]
  have hshort : l₀.storedData? Store.shortTermKey = some (l.history.shortTerm l.head) := by
    have hsaved : saved.store = l.withSnapshot := by
      have hsave := h.done
      unfold LiveRegistry.save at hsave
      rw [if_neg (HardFork.not_lt.2 h.begun)] at hsave
      split at hsave
      · cases hsave
      · cases hsave
        rfl
    unfold storedData?
    rw [hstore.short, hsaved, withSnapshot, SortedMap.get?_insert_self, Option.bind_some,
      StoredData.read?_encode h.fits.2]
  obtain ⟨short, hfound, hrestored⟩ := Option.bind_eq_some_iff.1 hsnapshot
  rw [hshort] at hfound
  cases hfound
  rw [hlong] at hrestored
  exact eq_ok_of_toOption hrestored

/-- What is restored is the head that was saved, with a past that is true to the chain. -/
theorem SavedInSync.restored_true (hm : OnCourse suite feed m heads)
    (hscheduled : m.settings.WellScheduled) (hstore : saved.store.SameSnapshot l₀.store)
    (hshows : s.chain.Shows feed (tip + 1))
    (hsnapshot : l₀.snapshot? s currentHeight = some restored) :
    restored.head = l.head ∧ TrueTo heads restored.history.recent ∧
      TrueTo heads restored.history.archive := by
  obtain ⟨⟨state, hstate, hhead⟩, hrecent, harchive, -⟩ :=
    restored_parts (h.restore_eq_ok hstore hsnapshot)
  obtain ⟨hmem, -⟩ := mem_of_headAt h.sync.head
  refine ⟨?_, ?_, ?_⟩
  · rw [History.head_shortTerm (hm.full _ hmem)] at hstate
    cases hstate
    rw [hhead]
    refine Registry.restored_of_hashIn (hm.isCurrent h.sync.head) ?_
    show (if stateVersion = hashlessStateVersion ∨ l.head.blockHash = 0 then
      ((s.chain.blockAt? l.head.height).map (·.hash)).getD 0 else l.head.blockHash) =
        l.head.blockHash
    -- Only a zero hash is looked up: the chain knows the block, or shows none at its height.
    split
    · rename_i hzero
      obtain ⟨hlow, -⟩ := hm.currentHeight_of_begun hscheduled h.settings h.begun h.ends
        (hm.bounds _ hmem).2
      by_cases hshown : l.head.height < tip + 1
      · rw [hm.hash_eq h.sync.head hlow hshows hshown]
        rfl
      · cases hblock : s.chain.blockAt? l.head.height with
        | none => exact (hzero.resolve_left (by decide)).symm
        | some block => exact absurd (hshows.mem_of_blockAt? hblock).2.1 hshown
    · rfl
  · rw [hrecent]
    refine StatesTrueTo.registries ?_ _
    unfold History.shortTerm
    dsimp only
    rw [List.dropLast_concat]
    exact h.sync.recent.stored (fun _ hp => List.mem_of_mem_filter hp) _
  · rw [harchive]
    refine StatesTrueTo.registries ?_ _
    have htrue := (h.sync.save h.fits.1 h.begun h.done).2
    cases hlong : saved.storedData? Store.longTermKey with
    | none => exact fun _ hstate => nomatch hstate
    | some data => exact htrue data hlong

/-- Whatever a start builds upon is in sync with the chain: the head that was saved, or the empty
registry. -/
theorem SavedInSync.foundation (hm : OnCourse suite feed m heads)
    (hscheduled : m.settings.WellScheduled)
    (hstart : StartsOver suite feed m.settings saved.store l₀ s tip) :
    InSync heads (l₀.foundation s) ∧ m.settings.SameChain (l₀.foundation s).settings ∧
      (l₀.foundation s).head =
        if l₀.resumes s then l.head else Registry.new m.settings.startHeight := by
  have htrue := (h.sync.save h.fits.1 h.begun h.done).2
  obtain ⟨hsettings, -, hstore⟩ := load_keeps l₀ s s.chain.currentHeight
  have hstores : StoresTrueTo heads (l₀.load s s.chain.currentHeight).2 := by
    intro data hdata
    unfold storedData? at hdata
    rw [hstore, hstart.store.long] at hdata
    exact htrue data hdata
  have hsame : m.settings.SameChain (l₀.load s s.chain.currentHeight).2.settings := by
    rw [hsettings]
    exact hstart.settings
  rw [foundation_of_begun hstart.begun]
  by_cases hresumes : l₀.resumes s = true
  · rw [if_pos hresumes, if_pos hresumes]
    obtain ⟨restored, hsnapshot, -, hhead, hhistory⟩ := load_eq_ok (resumes_iff.1 hresumes).1
    have hcleared : saved.store.SameSnapshot l₀.cleared.store := hstart.store
    obtain ⟨hsaved, hrecent, harchive⟩ :=
      h.restored_true hm hscheduled hcleared hstart.ends hsnapshot
    have hfound := hhead.trans hsaved
    refine ⟨⟨?_, ?_, ?_, fun _ => hstores⟩, hsame, hfound⟩
    · rw [hfound]
      exact h.sync.head
    · rw [hhistory]
      exact hrecent
    · rw [hhistory]
      exact harchive
  · rw [if_neg hresumes, if_neg hresumes]
    refine ⟨hm.inSync_reset hsame hstores, ?_, ?_⟩
    · unfold reset
      split <;> exact hsame
    · rw [← startHeight_of_sameChain hsame]
      unfold reset
      split <;> rfl

/-- If the whole archive was stored, what a start builds upon lacks quorums of the chain only at
heights that the snapshot leaves out, or at which they were lacking before. -/
theorem SavedInSync.lacks_of_foundation (hm : OnCourse suite feed m heads)
    (hscheduled : m.settings.WellScheduled)
    (hstart : StartsOver suite feed m.settings saved.store l₀ s tip)
    (hstored : saved.storedData? Store.longTermKey = some l.history.longTerm) {height : Nat}
    (hlacks : (l₀.foundation s).Lacks height) (hquorum : quorumAt heads height ≠ none) :
    History.LeftOut l.head.height height ∨ l.Lacks height := by
  obtain ⟨-, -, hhead⟩ := h.foundation hm hscheduled hstart
  obtain ⟨hlow, hnone⟩ := hlacks
  unfold view at hnone
  rw [HistoryView.obligations?_of, if_neg (by omega)] at hnone
  by_cases hresumes : l₀.resumes s = true
  · rw [if_pos hresumes] at hhead
    rw [hhead] at hlow
    obtain ⟨restored, hsnapshot, -, -, hhistory⟩ := load_eq_ok (resumes_iff.1 hresumes).1
    have hcleared : saved.store.SameSnapshot l₀.cleared.store := hstart.store
    have hrestore := h.restore_eq_ok hcleared hsnapshot
    rw [hstored] at hrestore
    have hkeyed : l.history.Keyed :=
      ⟨fun k r hr => (h.sync.recent k r hr).1, fun k r hr => (h.sync.archive k r hr).1⟩
    have hloaded : (l₀.foundation s).history = restored.history := by
      rw [foundation_of_begun hstart.begun, if_pos hresumes, hhistory]
    rw [hloaded, History.at?_restore hkeyed hrestore] at hnone
    by_cases hlimit : height ≤ History.maxShortTerm l.head.height
    · rw [if_pos hlimit] at hnone
      refine .inr ⟨hlow, ?_⟩
      unfold view
      rw [HistoryView.obligations?_of, if_neg (by omega)]
      exact hnone
    · exact .inl ⟨by omega, hlow⟩
  · -- Below the empty registry there is no quorum.
    rw [if_neg hresumes] at hhead
    rw [hhead] at hlow
    refine absurd ?_ hquorum
    rw [quorumAt, hm.headAt_eq_none (.inl hlow)]
    rfl

end Start

/-! ## Where a start ends -/

/-- A registry in sync with a chain was saved when the chain ended at its head, and another one
starts over the store when the same chain ends anywhere else, or there again. If the start
succeeds and the stored head is used although it lies one above the last block, the head is that
stored head. Otherwise the head has the height of the last block; and it is the head that all
blocks, applied one after the other from the first one on, lead to, unless one of the blocks that
were applied again rests on a quorum that was not on record any more. If the whole archive was
stored, such a quorum belongs to a height that the snapshot leaves out, or was not on record before
the save either. -/
theorem Follows.start_in_sync_unless_one_above {l₀ : LiveRegistry} {tip : Nat}
    (hm : Follows suite feed m heads) (hscheduled : m.settings.WellScheduled)
    (hchain : feed.IsChain m.settings.startHeight)
    (hsaved : SavedInSync feed heads m.settings l s₀ saved)
    (hstart : StartsOver suite feed m.settings saved.store l₀ s tip) (htip : tip ≤ m.head.height)
    (hdone : l₀.init s = (.ok (), fresh)) :
    s.chain.currentHeight = tip + 1 ∧
    (l₀.resumes s = true ∧ l.head.height = tip + 1 → fresh.head = l.head) ∧
    (¬ (l₀.resumes s = true ∧ l.head.height = tip + 1) →
      fresh.head.height = tip ∧
      (NoneRests s feed (l₀.foundation s).Lacks (quorumAt heads) (l₀.foundation s).head.height tip →
        headAt heads tip = some fresh.head ∧ InSync heads fresh)) ∧
    (saved.storedData? Store.longTermKey = some l.history.longTerm → ∀ height,
      (l₀.foundation s).Lacks height → quorumAt heads height ≠ none →
        History.LeftOut l.head.height height ∨ l.Lacks height) := by
  have hcourse := hm.onCourse
  obtain ⟨hlow, hcurrent⟩ := hcourse.currentHeight_of_begun hscheduled hstart.settings hstart.begun
    hstart.ends htip
  obtain ⟨hsync, hsame, hhead⟩ := hsaved.foundation hcourse hscheduled hstart
  have hreplay := replayBelow_of_init hstart.begun hdone
  unfold replayBelow at hreplay
  rw [hcurrent, show tip + 1 - ((l₀.foundation s).head.height + 1) =
    tip - (l₀.foundation s).head.height by omega] at hreplay
  refine ⟨hcurrent, ?_, fun hkept => ?_, fun hstored height hlacks hquorum =>
    hsaved.lacks_of_foundation hcourse hscheduled hstart hstored hlacks hquorum⟩
  · rintro ⟨hresumes, habove⟩
    rw [if_pos hresumes] at hhead
    -- Above the last block there is nothing to apply.
    rw [hhead, habove, show tip - (tip + 1) = 0 by omega] at hreplay
    cases hreplay
    exact hhead
  · have hbelow : (l₀.foundation s).head.height ≤ tip := by
      rw [hhead]
      split
      · rename_i hresumes
        have hle := height_le_of_resumes hstart.begun hresumes
        rw [if_pos hresumes] at hhead
        rw [hhead, hcurrent] at hle
        have hne : l.head.height ≠ tip + 1 := fun heq => hkept ⟨hresumes, heq⟩
        omega
      · exact Nat.le_of_lt hlow
    have hfirst := (hcourse.bounds _ (mem_of_headAt hsync.head).1).1
    refine ⟨?_, fun hnone => ?_⟩
    · have hheight := height_of_replay hchain hstart.ends _ hfirst hreplay
      omega
    · obtain ⟨l', hdone', hlast, hsync'⟩ := hsync.rescan hcourse hsame hchain hstart.suite_eq
        hstart.ends htip hbelow hnone
      rw [hreplay] at hdone'
      cases hdone'
      exact ⟨hlast, hsync'⟩

end Runs

/-- Plain blocks carry no state changes, so they rest on no quorum. -/
theorem noneRests_plain (s : Surroundings) (fork : HardFork) (first count : Nat)
    (lost : Nat → Prop) (quorums : Nat → Option Quorum) (below last : Nat) :
    NoneRests s (.plain fork first count) lost quorums below last := by
  rintro e he - - ⟨tx, htx, -⟩
  obtain ⟨height, -, rfl⟩ := List.mem_map.1 he
  cases htx

/-- Three plain blocks on the fake chain, and a save after the last one, at height seven. A start
over the store leads to the head of height five when two blocks are dropped; but when one is
dropped, the head stays that of height seven. -/
theorem Follows.start_one_above_after_three_blocks :
    ∃ l heads saved s s', Follows .standard (.plain .v9 5 4) l heads ∧ l.head.height = 7 ∧
      (l.save s).1 = .ok () ∧ saved = (l.save s).2 ∧
      (∃ fresh, (start .early saved.store []).init s' = (.ok (), fresh) ∧
        s'.chain.currentHeight = 6 ∧ headAt heads 5 = some fresh.head) ∧
      ∃ s'' fresh, (start .early saved.store []).init s'' = (.ok (), fresh) ∧
        s''.chain.currentHeight = 7 ∧ fresh.head = l.head ∧ headAt heads 6 ≠ some fresh.head := by
  let feed : Feed := .plain .v9 5 4
  have hfeed : feed.Consistent := ⟨by decide, by decide, by decide⟩
  have hchain : feed.IsChain 4 := ⟨by decide, by decide⟩
  let s (top : Nat) : Surroundings := ⟨.standard, feed.reader top, 0, none, none, 0⟩
  let l₁ := ((start .early ∅ []).init (s 6)).2
  let l₂ := (l₁.addBlock (s 7) (.plain 6 .v9) [] none).2
  let l₃ := (l₂.addBlock (s 8) (.plain 7 .v9) [] none).2
  have h₁ : Follows .standard feed l₁ _ :=
    .init rfl rfl (feed.shows_reader hfeed 6) (done_of_toOption (by decide +kernel))
  have h₂ : Follows .standard feed l₂ _ :=
    .add h₁ (List.mem_map.2 ⟨6, by decide, rfl⟩) rfl (feed.shows_reader hfeed 7) (by decide)
      (done_of_toOption (by decide +kernel))
  have h₃ : Follows .standard feed l₃ _ :=
    .add h₂ (List.mem_map.2 ⟨7, by decide, rfl⟩) rfl (feed.shows_reader hfeed 8) (by decide)
      (done_of_toOption (by decide +kernel))
  have hsettings : l₃.settings.WellScheduled := by
    exact ⟨by decide +kernel, by decide +kernel⟩
  have hsame : l₃.settings.SameChain .early := ⟨by decide +kernel, by decide +kernel⟩
  have hstart : l₃.settings.startHeight = 4 := by decide +kernel
  have htop : l₃.head.height = 7 := by decide +kernel
  rw [← hstart] at hchain
  have hsave : l₃.save (s 8) = (.ok (), (l₃.save (s 8)).2) :=
    done_of_toOption (by decide +kernel)
  have hsaved : SavedInSync feed _ l₃.settings l₃ (s 8) (l₃.save (s 8)).2 :=
    ⟨h₃.onCourse.inSync, ⟨rfl, rfl⟩, by rw [htop]; exact feed.shows_reader hfeed 8,
      by decide +kernel, by decide +kernel, hsave⟩
  let l₀ := start .early (l₃.save (s 8)).2.store []
  have hover (tip : Nat) (hbegun : HardFork.serviceNodes ≤ l₀.chainFork (s (tip + 1))) :
      StartsOver .standard feed l₃.settings (l₃.save (s 8)).2.store l₀ (s (tip + 1)) tip :=
    startsOver_start _ [] hsame rfl (feed.shows_reader hfeed (tip + 1)) hbegun
  have hfive : l₀.init (s 6) = (.ok (), (l₀.init (s 6)).2) :=
    done_of_toOption (by decide +kernel)
  obtain ⟨hcurrent, -, hlevel, -⟩ := h₃.start_in_sync_unless_one_above hsettings hchain hsaved
    (hover 5 (by decide +kernel)) (by rw [htop]; decide) hfive
  have hsix : l₀.init (s 7) = (.ok (), (l₀.init (s 7)).2) :=
    done_of_toOption (by decide +kernel)
  obtain ⟨hcurrent', habove, -, -⟩ := h₃.start_in_sync_unless_one_above hsettings hchain hsaved
    (hover 6 (by decide +kernel)) (by rw [htop]; decide) hsix
  have hkept := habove ⟨by decide +kernel, htop⟩
  have hfar : ¬ (l₀.resumes (s 6) = true ∧ l₃.head.height = 5 + 1) := by
    rw [htop]
    exact fun h => absurd h.2 (by decide)
  have hfifth := ((hlevel hfar).2 (noneRests_plain (s 6) .v9 5 4 _ _ _ _)).1
  refine ⟨l₃, _, _, s 8, s 6, h₃, htop, by rw [hsave], rfl, ⟨_, hfive, hcurrent, ?_⟩, s 7, _, hsix,
    hcurrent', hkept, fun hsixth => ?_⟩
  · exact hfifth
  · have hheight := (mem_of_headAt hsixth).2
    rw [hkept, htop] at hheight
    cases hheight

end LiveRegistry

end StakeRegistry
