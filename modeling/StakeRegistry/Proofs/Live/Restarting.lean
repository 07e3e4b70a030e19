import StakeRegistry.Proofs.Live.Detaching
import StakeRegistry.Proofs.Live.Lockstep
import StakeRegistry.Proofs.Stored.Restoring
import StakeRegistry.Proofs.Stored.RoundTrip

/-!
# Restarts

A registry that is saved and started again over the same chain comes back with the same head,
from the snapshot or by applying all blocks again. A snapshot leaves out the registries between
`maxShortTerm` and the head, although votes may still name their heights. So after a restart
from a snapshot state changes on these heights find no quorum, where before they were carried;
a restart is invisible to every block that carries none of them. Main statements:

* `OnCourse.inStep_of_restore`: a registry restored from a snapshot is in step with the saved one;
* `Follows.restart_invisible_unless_lost`: what a restart keeps, and which blocks cannot tell.
-/

set_option autoImplicit false

namespace StakeRegistry

theorem Store.longTermKey_ne_shortTermKey : longTermKey ≠ shortTermKey := by decide

namespace LiveRegistry

/-- The numbers in the snapshot of a registry fit the words that they are stored in. -/
def SnapshotFits (l : LiveRegistry) : Prop :=
  StoredData.codec.Fits l.history.longTerm ∧ StoredData.codec.Fits (l.history.shortTerm l.head)

section Restarts

variable {suite : CryptoSuite} {feed : Feed} {l l' saved fresh : LiveRegistry}
  {heads : List Registry} {s₀ s : Surroundings}

/-! ## Saving -/

/-- Saving changes nothing that blocks read. Where service nodes exist, the store has the
snapshot afterwards. -/
theorem save_eq_ok (h : l.save s = (.ok (), saved)) :
    saved = l ∨ saved = { l with
      store := l.withSnapshot
      history := { l.history with archiveChanged := false }
      savedVersion := some dataVersion } := by
  unfold save at h
  split at h
  · cases h
    exact Or.inl rfl
  · split at h
    · cases h
    · cases h
      exact Or.inr rfl

/-- A registry that never stored a snapshot stores both pieces of it. -/
theorem get?_withSnapshot (h : l.savedVersion = none) :
    l.withSnapshot.get? Store.longTermKey = some (StoredData.codec.encode l.history.longTerm) ∧
      l.withSnapshot.get? Store.shortTermKey =
        some (StoredData.codec.encode (l.history.shortTerm l.head)) := by
  have hdue : l.longTermDue = true := by
    unfold longTermDue
    rw [h]
    exact Bool.or_true _
  unfold withSnapshot
  dsimp only
  rw [if_pos hdue]
  constructor
  · rw [SortedMap.get?_insert_of_ne _ _ Store.longTermKey_ne_shortTermKey,
      SortedMap.get?_insert_self]
  · rw [SortedMap.get?_insert_self]

/-! ## Loading -/

/-- A snapshot in the store that fits is restored from what was stored. -/
theorem restore_of_snapshot? {long short : StoredData} {currentHeight : Nat} {restored : Restored}
    (hlong : l.store.get? Store.longTermKey = some (StoredData.codec.encode long))
    (hshort : l.store.get? Store.shortTermKey = some (StoredData.codec.encode short))
    (hlongFits : StoredData.codec.Fits long) (hshortFits : StoredData.codec.Fits short)
    (h : l.snapshot? s currentHeight = some restored) :
    restore (l.loadContext s) (some long) short currentHeight l.history.oldLimit =
      .ok restored := by
  have hreadLong : l.storedData? Store.longTermKey = some long := by
    unfold storedData?
    rw [hlong, Option.bind_some, StoredData.read?_encode hlongFits]
  have hreadShort : l.storedData? Store.shortTermKey = some short := by
    unfold storedData?
    rw [hshort, Option.bind_some, StoredData.read?_encode hshortFits]
  unfold snapshot? at h
  rw [hreadLong, hreadShort] at h
  have h : (restore (l.loadContext s) (some long) short currentHeight
      l.history.oldLimit).toOption = some restored := h
  exact eq_ok_of_toOption h

/-! ## The head and its past -/

/-- The entries of every published head are in the current layout. -/
theorem OnCourse.isCurrent (h : OnCourse suite feed l heads) {height : Nat} {r : Registry}
    (hr : headAt heads height = some r) : r.IsCurrent := by
  obtain ⟨hmem, hheight⟩ := mem_of_headAt hr
  have hbounds := h.bounds r hmem
  obtain ⟨steps, rfl⟩ : ∃ steps, height = l.settings.startHeight + steps :=
    ⟨height - l.settings.startHeight, by omega⟩
  have hhigh : l.settings.startHeight + steps ≤ l.head.height := by omega
  clear hmem hheight hbounds
  -- Over the heights from the start: each head comes from the one below it by a block.
  induction steps generalizing r with
  | zero =>
      rw [Nat.add_zero, h.first] at hr
      cases hr
      exact Registry.isCurrent_new _
  | succ steps ih =>
      obtain ⟨previous, hprevious⟩ :=
        h.every (l.settings.startHeight + steps) (by omega) (by omega)
      have hcurrent := ih hprevious (by omega)
      have hlead := h.leads _ previous r hprevious hr
      cases hlead with
      | block _ _ _ _ _ _ _ applied => exact hcurrent.apply applied

/-- The chain knows the hash of every published head above the first, as far as it shows its
blocks. -/
theorem OnCourse.hash_eq (h : OnCourse suite feed l heads) {height top : Nat} {r : Registry}
    (hr : headAt heads height = some r) (hlow : l.settings.startHeight < height)
    (hshows : s.chain.Shows feed top) (hshown : height < top) :
    (s.chain.blockAt? height).map (·.hash) = some r.blockHash := by
  have hhigh := (h.bounds r (mem_of_headAt hr).1).2
  have hrheight := (mem_of_headAt hr).2
  obtain ⟨previous, hprevious⟩ := h.every (height - 1) (by omega) (by omega)
  have hsucc : height - 1 + 1 = height := by omega
  have hlead := h.leads (height - 1) previous r hprevious (by rw [hsucc]; exact hr)
  cases hlead with
  | @block ctx block txs top _ _ outcome _ _ _ _ _ fed _ applied =>
      have hheight := Registry.height_of_apply applied
      have hhash := Registry.blockHash_of_apply applied
      have hblock := hshows.blockAt?_eq fed (by omega)
      rw [← hrheight, hheight, hblock, hhash]
      rfl

/-- Nothing of the archive lies among the heights that a snapshot leaves out. -/
theorem OnCourse.archive_eq_none (h : OnCourse suite feed l heads) {height : Nat}
    (hout : History.LeftOut l.head.height height) : l.history.archive.get? height = none := by
  rw [h.tiers.archive, if_neg]
  unfold History.LeftOut History.maxShortTerm History.cullHeight recentBlocks at hout
  have hlifetime : voteLifetime = 60 := rfl
  have hbuffer : voteBuffer = 5 := rfl
  unfold recentBlocks
  omega

/-- Nothing is on record above the head. -/
theorem OnCourse.at?_eq_none (h : OnCourse suite feed l heads) {height : Nat}
    (hhigh : l.head.height < height) : l.history.at? height = none := by
  unfold History.at?
  rw [h.tiers.recent, h.tiers.archive, if_neg (by omega), if_neg (by omega)]
  rfl

/-- A registry that is restored from a snapshot has the head that was saved and all that was on
record of the past, but for the heights that the snapshot left out. -/
theorem OnCourse.obligations?_of_restore (h : OnCourse suite feed l heads)
    (hlow : l.settings.startHeight < l.head.height)
    (hshows : s.chain.Shows feed (l.head.height + 1)) {m : LiveRegistry}
    {currentHeight setting : Nat} {restored : Restored}
    (hrestore : restore (m.loadContext s) (some l.history.longTerm)
      (l.history.shortTerm l.head) currentHeight setting = .ok restored) :
    restored.head = l.head ∧ ∀ height,
      (HistoryView.of restored.head restored.history).obligations? height =
        if History.LeftOut l.head.height height then none else l.view.obligations? height := by
  have hkeyed := h.tiers.keyed fun k r hr => (mem_of_headAt hr).2
  have hhash : ((m.loadContext s).blockHashAt? l.head.height).getD 0 = l.head.blockHash := by
    show ((s.chain.blockAt? l.head.height).map (·.hash)).getD 0 = _
    rw [h.hash_eq h.last hlow hshows (Nat.lt_succ_self _)]
    rfl
  refine ⟨?_, fun height => ?_⟩
  · rw [(History.restore_eq_ok hkeyed hrestore).1]
    exact Registry.restored_eq (h.isCurrent h.last) hhash
  · exact History.obligations?_restore hkeyed (fun k hk => h.archive_eq_none hk)
      (fun k hk => h.at?_eq_none hk) hrestore height

/-! ## Starting again -/

/-- A registry restored from the snapshot of another is in step with it, the lost heights being
those that the snapshot left out. -/
theorem OnCourse.inStep_of_restore (h : OnCourse suite feed l heads)
    (hsettings : fresh.settings = l.settings) (hhead : fresh.head = l.head)
    (hrecords : ∀ height, fresh.view.obligations? height =
      if History.LeftOut l.head.height height then none else l.view.obligations? height) :
    InStep (History.LeftOut l.head.height) (quorumAt heads) l fresh := by
  refine ⟨hsettings, hhead, fun _ hout => hout.2, h.recalls, rfl, fun height hlow hlive => ?_⟩
  rw [hrecords, h.recalls.quorum height hlow hlive]
  rfl

/-- A registry that recalls all that another does is in step with it, with no height lost. -/
theorem inStep_of_recalls {quorums : Nat → Option Quorum} (hsettings : fresh.settings = l.settings)
    (hhead : fresh.head = l.head) (hl : l.view.Recalls quorums (l.head.height + 1))
    (hfresh : fresh.view.Recalls quorums (l.head.height + 1)) :
    InStep (fun _ => False) quorums l fresh := by
  refine ⟨hsettings, hhead, fun _ hlost => hlost.elim, hl, hfresh.congr fun height _ => ?_⟩
  exact if_neg not_false

/-- Whoever is in step with a registry before it is saved is so afterwards. -/
theorem InStep.of_save {lost : Nat → Prop} [DecidablePred lost] {quorums : Nat → Option Quorum}
    (h : InStep lost quorums l fresh) (hsave : l.save s = (.ok (), saved)) :
    InStep lost quorums saved fresh := by
  rcases save_eq_ok hsave with rfl | rfl
  · exact h
  · exact ⟨h.settings, h.head, h.below, ⟨rfl, h.recalls.quorum⟩, h.lacks⟩

/-- A restart from the saved snapshot: the head is the one saved, and of the past only the
heights that the snapshot left out are lost. -/
theorem OnCourse.init_of_saved (h : OnCourse suite feed l heads)
    (hscheduled : l.settings.WellScheduled) (hsave : l.save s₀ = (.ok (), saved))
    (hfits : l.SnapshotFits) (hshows : s.chain.Shows feed (l.head.height + 1))
    (hfork : ¬ (start l.settings saved.store saved.ledger).chainFork s < HardFork.serviceNodes)
    (hload : ((start l.settings saved.store saved.ledger).load s s.chain.currentHeight).1 =
      .ok true)
    (husable : ((start l.settings saved.store saved.ledger).load s
      s.chain.currentHeight).2.isUsable s = true) :
    ∃ fresh, (start l.settings saved.store saved.ledger).init s = (.ok (), fresh) ∧
      fresh.settings = l.settings ∧ fresh.head = l.head ∧ ∀ height,
        fresh.view.obligations? height =
          if History.LeftOut l.head.height height then none else l.view.obligations? height := by
  -- The chain has service nodes, so there is a block below the head.
  have hlow : l.settings.startHeight < l.head.height := by
    have hbegun := (Settings.serviceNodes_le_forkAt_iff hscheduled _).1 (HardFork.not_lt.1 hfork)
    have := hshows.currentHeight_le
    omega
  have hcurrent := h.currentHeight_eq hshows hlow (Nat.le_refl _)
  have hinit := init_of_loaded hfork hload husable
  obtain ⟨restored, hsnapshot, hsettings, hhead, hhistory⟩ := load_eq_ok hload
  rcases save_eq_ok hsave with rfl | rfl
  · -- Nothing was stored, so nothing can have been loaded.
    have hnone : (start saved.settings saved.store saved.ledger).store.get? Store.shortTermKey =
        none := h.noSnapshot
    exact absurd hload (load_of_noSnapshot hnone _).1
  · obtain ⟨hlong, hshort⟩ := get?_withSnapshot h.unsaved
    have hrestore := restore_of_snapshot? hlong hshort hfits.1 hfits.2 hsnapshot
    obtain ⟨hrestored, hrecords⟩ := h.obligations?_of_restore hlow hshows hrestore
    generalize (start l.settings _ _).load s s.chain.currentHeight = loaded at *
    have hloaded : loaded.2.head = l.head := hhead.trans hrestored
    refine ⟨loaded.2, ?_, hsettings, hloaded, fun height => ?_⟩
    · rw [hinit]
      unfold replayBelow
      rw [hloaded, hcurrent, Nat.sub_self]
      rfl
    · unfold view
      rw [hhead, hhistory]
      exact hrecords height

/-- A restart is invisible but for lost votes. When a registry that started without a snapshot
has followed a chain and is saved, a new one that starts over the same chain and store comes
back with the same head. Either all quorums that votes may name are on record again, or those
of the heights that the snapshot leaves out are not, and all others are. From then on both
answer all blocks alike, in any surroundings, until a block carries a state change on a height
left out, with votes that the quorum of that height has cast. -/
theorem Follows.restart_invisible_unless_lost (h : Follows suite feed l heads)
    (hscheduled : l.settings.WellScheduled) (hchain : feed.IsChain l.settings.startHeight)
    (hsave : l.save s₀ = (.ok (), saved)) (hfits : l.SnapshotFits) (hsuite : s.suite = suite)
    (hwritable : s.writeFault = none) (hshows : s.chain.Shows feed (l.head.height + 1)) :
    ∃ fresh, (start l.settings saved.store saved.ledger).init s = (.ok (), fresh) ∧
      fresh.head = saved.head ∧
      (fresh.view.Recalls (quorumAt heads) (saved.head.height + 1) ∨
        ∀ height, fresh.view.obligations? height =
          if History.LeftOut saved.head.height height then none
          else saved.view.obligations? height) ∧
      ∀ feedings, (∀ f ∈ feedings,
          ¬ f.RestsOn (History.LeftOut saved.head.height) (quorumAt heads)) →
        fresh.answers feedings = saved.answers feedings := by
  have hcourse := h.onCourse
  have hsavedHead : saved.head = l.head := by
    rcases save_eq_ok hsave with rfl | rfl <;> rfl
  have hsavedView : ∀ height, saved.view.obligations? height = l.view.obligations? height := by
    rcases save_eq_ok hsave with rfl | rfl <;> exact fun _ => rfl
  rw [hsavedHead]
  -- Either the snapshot is used or everything is applied again, and that is exact.
  by_cases hloaded : ¬ (start l.settings saved.store saved.ledger).chainFork s <
        HardFork.serviceNodes ∧
      ((start l.settings saved.store saved.ledger).load s s.chain.currentHeight).1 = .ok true ∧
      ((start l.settings saved.store saved.ledger).load s
        s.chain.currentHeight).2.isUsable s = true
  · obtain ⟨fresh, hinit, hsettings, hhead, hrecords⟩ := hcourse.init_of_saved hscheduled hsave
      hfits hshows hloaded.1 hloaded.2.1 hloaded.2.2
    have hstep := (hcourse.inStep_of_restore hsettings hhead hrecords).of_save hsave
    refine ⟨fresh, hinit, hhead, Or.inr fun height => ?_, fun feedings hrests => ?_⟩
    · rw [hrecords, hsavedView]
    · exact hstep.answers_eq feedings hrests
  · obtain ⟨fresh, hinit, hlast, hrecalls, hsettings⟩ := hcourse.init_exact hscheduled hchain
      hsuite hwritable hshows (hcourse.bounds _ (mem_of_headAt hcourse.last).1).1
      (Nat.le_refl _) (start l.settings saved.store saved.ledger) rfl
      fun hfork hload => hloaded ⟨hfork, hload.1, hload.2⟩
    have hhead : fresh.head = l.head := by
      rw [hcourse.last] at hlast
      exact (Option.some.inj hlast).symm
    rw [hhead] at hrecalls
    have hstep := (inStep_of_recalls hsettings hhead hcourse.recalls hrecalls).of_save hsave
    refine ⟨fresh, hinit, hhead, Or.inl hrecalls, fun feedings _ => ?_⟩
    refine hstep.answers_eq feedings ?_
    rintro f - ⟨tx, -, -, change, -, hlost, -⟩
    exact hlost

end Restarts

instance (l : LiveRegistry) : Decidable l.SnapshotFits := inferInstanceAs (Decidable (_ ∧ _))

/-- Three plain blocks on the fake chain, a restart from the snapshot after them, and a fourth
block. -/
theorem Follows.restart_invisible_unless_lost_after_three_blocks :
    ∃ l heads saved s fresh, Follows .standard (.plain .v9 5 4) l heads ∧
      (l.save s).1 = .ok () ∧ saved = (l.save s).2 ∧ saved.head.height = 7 ∧
      (start l.settings saved.store saved.ledger).init s = (.ok (), fresh) ∧
      fresh.head = saved.head ∧
      fresh.answers [⟨s, .plain 8 .v9, []⟩] = saved.answers [⟨s, .plain 8 .v9, []⟩] ∧
      (saved.answers [⟨s, .plain 8 .v9, []⟩]).map (·.2.height) = [8] := by
  let feed : Feed := .plain .v9 5 4
  have hfeed : feed.Consistent := ⟨by decide, by decide, by decide⟩
  have hchain : feed.IsChain 4 := ⟨by decide, by decide⟩
  let s (top : Nat) : Surroundings := ⟨.standard, feed.reader top, 0, none, none, 0⟩
  let l := start .early ∅ []
  let l₁ := (l.init (s 6)).2
  let l₂ := (l₁.addBlock (s 7) (.plain 6 .v9) [] none).2
  let l₃ := (l₂.addBlock (s 8) (.plain 7 .v9) [] none).2
  have h₁ : Follows .standard feed l₁ _ :=
    .init rfl rfl (feed.shows_reader hfeed 6) (done_of_toOption (by decide +kernel))
  have h₂ : Follows .standard feed l₂ _ :=
    .add h₁ (List.mem_map.2 ⟨6, by decide, rfl⟩) rfl (feed.shows_reader hfeed 7) (by decide)
      (done_of_toOption (by decide +kernel))
  have h₃ : Follows .standard feed l₃ _ :=
    .add h₂ (List.mem_map.2 ⟨7, by decide, rfl⟩) rfl (feed.shows_reader hfeed 8) (by decide)
      (done_of_toOption (by decide +kernel))
  have hsettings : l₃.settings.WellScheduled := by
    exact ⟨by decide +kernel, by decide +kernel⟩
  have hstart : l₃.settings.startHeight = 4 := by decide +kernel
  have htop : l₃.head.height = 7 := by decide +kernel
  have hsave : l₃.save (s 8) = (.ok (), (l₃.save (s 8)).2) :=
    done_of_toOption (by decide +kernel)
  rw [← hstart] at hchain
  obtain ⟨fresh, hinit, hhead, -, hanswers⟩ :=
    h₃.restart_invisible_unless_lost (s := s 8) hsettings hchain hsave (by decide +kernel) rfl rfl
      (by rw [htop]; exact feed.shows_reader hfeed 8)
  refine ⟨l₃, _, _, s 8, fresh, h₃, by rw [hsave], rfl, by decide +kernel, hinit, hhead, ?_, ?_⟩
  · refine hanswers _ fun f hf => ?_
    rw [List.mem_singleton.1 hf]
    rintro ⟨tx, htx, -⟩
    cases htx
  · decide +kernel

end LiveRegistry

end StakeRegistry
