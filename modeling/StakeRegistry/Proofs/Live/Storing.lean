import StakeRegistry.Proofs.Live.Runs
import StakeRegistry.Proofs.Stored.Reopening

/-!
# What is stored of the archive

The long-term data is written only when the archive has changed or nothing was stored yet. A
registry notes that its archive has changed when a block archives something, but not when going
back drops archived registries. Where that never happens unnoticed, what is stored after every
save is the archive (`LiveRegistry.Tended`); where it does, the stored archive stays the one of
the branch that was left, until a block archives something again. Main statements:

* `Tended.mirrored`: after a save the stored data is that of the archive, and when it is after a
  way back into the archive;
* `Tended.stale_after_detach`: a run in which a save leaves an archived registry in the store that
  the registry itself has dropped.
-/

set_option autoImplicit false

namespace StakeRegistry

/-! ## The archive and its mark -/

namespace History

theorem longTerm_congr {h h' : History} (harchive : h.archive = h'.archive) :
    h.longTerm = h'.longTerm := by
  unfold longTerm
  rw [harchive]

/-- A registry that is archived raises the mark. -/
theorem archive_retire_of_unchanged {h : History} {height : Nat} {r : Registry}
    (hmark : (h.retire height r).archiveChanged = false) :
    (h.retire height r).archive = h.archive ∧ h.archiveChanged = false := by
  revert hmark
  unfold retire
  dsimp only
  split
  · exact fun hmark => Bool.noConfusion hmark
  · split
    · exact fun hmark => ⟨rfl, hmark⟩
    · exact fun hmark => ⟨rfl, hmark⟩

theorem archive_foldl_retire_of_unchanged {l : List (Nat × Registry)} {h : History}
    (hmark : (l.foldl (fun h p => h.retire p.1 p.2) h).archiveChanged = false) :
    (l.foldl (fun h p => h.retire p.1 p.2) h).archive = h.archive ∧ h.archiveChanged = false := by
  induction l generalizing h with
  | nil => exact ⟨rfl, hmark⟩
  | cons p rest ih =>
      obtain ⟨hrest, hunchanged⟩ := ih hmark
      obtain ⟨hfirst, hbefore⟩ := archive_retire_of_unchanged hunchanged
      exact ⟨hrest.trans hfirst, hbefore⟩

/-- A block that archives something raises the mark. -/
theorem archive_push_of_unchanged {h : History} {blockHeight : Nat} {previous : Registry}
    (hmark : (h.push blockHeight previous).archiveChanged = false) :
    (h.push blockHeight previous).archive = h.archive ∧ h.archiveChanged = false := by
  unfold push at hmark ⊢
  exact archive_foldl_retire_of_unchanged hmark

/-- The long-term data of an archive is not that of the archive below one of its registries. -/
theorem longTerm_filter_ne {h h' : History} {sample : Nat} {r : Registry}
    (hr : h.archive.get? sample = some r)
    (harchive : h'.archive = h.archive.filter fun k _ => decide (k < sample)) :
    h.longTerm ≠ h'.longTerm := by
  intro heq
  have hlength : h.archive.toList.length = h'.archive.toList.length := by
    have hstates := congrArg (fun d => d.states.length) heq
    simpa [longTerm, SortedMap.values] using hstates
  have hmem := SortedMap.get?_eq_some_iff.1 hr
  rw [harchive] at hlength
  have hall := List.filter_eq_self.1 (List.filter_sublist.eq_of_length hlength.symm) _ hmem
  simp at hall

end History

/-- Registries kept under their heights, in the current layout. -/
def Placed (kept : SortedMap Nat Registry) : Prop :=
  ∀ k r, kept.get? k = some r → r.height = k ∧ r.IsCurrent

theorem placed_empty : Placed ∅ := fun _ _ hr => nomatch hr

theorem Placed.filter {kept : SortedMap Nat Registry} (h : Placed kept)
    (p : Nat → Registry → Bool) : Placed (kept.filter p) := by
  intro k r hr
  rw [SortedMap.get?_filter] at hr
  exact h k r (Option.filter_eq_some_iff.1 hr).1

/-- Whatever is read of stored registries is kept under its height, in the current layout. -/
theorem placed_byHeight (states : List StoredState) (ctx : LoadContext) :
    Placed (byHeight (states.map (·.registry ctx))) := by
  intro k r hr
  obtain ⟨hmem, hheight⟩ := mem_of_byHeight hr
  obtain ⟨state, -, rfl⟩ := List.mem_map.1 hmem
  exact ⟨hheight, state.isCurrent_registry ctx⟩

namespace LiveRegistry

section Runs

variable {l l' saved next : LiveRegistry} {s : Surroundings} {block : Block}
  {txs : List Transaction} {checkpoint : Option Checkpoint} {height : Nat}

/-! ## Registries in the current layout -/

/-- Every registry that is kept is kept under its height, in the current layout. -/
structure UpToDate (l : LiveRegistry) : Prop where
  head : l.head.IsCurrent
  recent : Placed l.history.recent
  archive : Placed l.history.archive

theorem isCurrent_of_archived? {height : Nat} {r kept : Registry} (hr : r.IsCurrent)
    (h : History.archived? height r = some kept) : kept.IsCurrent := by
  unfold History.archived? at h
  split at h
  · cases h
    intro key info hinfo
    cases hinfo
  · split at h
    · cases h
      exact hr
    · cases h

theorem lasting_upToDate : Lasting UpToDate where
  advance {l next s block txs checkpoint verify outcome} h hadvance := by
    obtain ⟨head, happly, -, rfl⟩ := advance_eq_ok_iff.1 hadvance
    refine ⟨h.head.apply happly, fun k r hr => ?_, fun k r hr => ?_⟩
    · rcases History.recent_push_cases _ _ _ hr with ⟨hk, rfl⟩ | ⟨-, hr⟩
      · exact ⟨hk.symm, h.head⟩
      · exact h.recent k r hr
    · rcases History.archive_push_cases _ _ _ hr with ⟨-, r', hr', harchived⟩ | hr
      · obtain ⟨hheight, hcurrent⟩ := h.recent k r' hr'
        exact ⟨(History.height_of_archived? harchived).trans hheight,
          isCurrent_of_archived? hcurrent harchived⟩
      · exact h.archive k r hr
  samePast {l l'} h hpast := by
    refine ⟨?_, ?_, ?_⟩
    · rw [hpast.head]
      exact h.head
    · rw [hpast.history]
      exact h.recent
    · rw [hpast.history]
      exact h.archive
  alternatives others h := ⟨h.head, h.recent, h.archive⟩

theorem upToDate_cleared (l : LiveRegistry) : UpToDate l.cleared :=
  ⟨Registry.isCurrent_new _, placed_empty, placed_empty⟩

theorem upToDate_reset (l : LiveRegistry) (s : Surroundings) : UpToDate (l.reset s).2 := by
  have hcleared := l.upToDate_cleared
  unfold reset
  split
  · exact hcleared
  · exact ⟨hcleared.head, hcleared.recent, hcleared.archive⟩

/-- What a snapshot restores is up to date, whoever stored it. -/
theorem upToDate_load (l : LiveRegistry) (s : Surroundings) (currentHeight : Nat) :
    UpToDate (l.load s currentHeight).2 := by
  have hcleared := l.upToDate_cleared
  have hrestored : ∀ (r : Restored) (l' : LiveRegistry),
      l.cleared.snapshot? s currentHeight = some r → l'.head = r.head → l'.history = r.history →
        UpToDate l' := by
    intro r l' hsnapshot hsame hsamePast
    obtain ⟨short, -, hrestored⟩ := Option.bind_eq_some_iff.1 hsnapshot
    obtain ⟨⟨state, -, hhead⟩, hrecent, harchive, -⟩ := restored_parts (eq_ok_of_toOption hrestored)
    refine ⟨?_, ?_, ?_⟩
    · rw [hsame, hhead]
      exact state.isCurrent_registry _
    · rw [hsamePast, hrecent]
      exact placed_byHeight _ _
    · rw [hsamePast, harchive]
      exact placed_byHeight _ _
  have hloading := loading l s currentHeight
  generalize l.load s currentHeight = result at hloading
  cases hloading with
  | unread => exact hcleared
  | absent => exact hcleared
  | broken _ found => exact hrestored _ _ found rfl rfl
  | loaded _ found => exact hrestored _ _ found rfl rfl

/-! ## What the store holds -/

/-- The store holds some long-term data, and while the mark is down the archive is a given one. -/
structure Rests (data : StoredData) (archive : SortedMap Nat Registry) (l : LiveRegistry) :
    Prop where
  version : l.savedVersion = some dataVersion
  stored : l.storedData? Store.longTermKey = some data
  unchanged : l.history.archiveChanged = false → l.history.archive = archive

theorem lasting_rests (data : StoredData) (archive : SortedMap Nat Registry) :
    Lasting (Rests data archive) where
  advance {l next s block txs checkpoint verify outcome} h hadvance := by
    obtain ⟨head, -, -, rfl⟩ := advance_eq_ok_iff.1 hadvance
    refine ⟨h.version, h.stored, fun hmark => ?_⟩
    obtain ⟨hsame, hbefore⟩ := History.archive_push_of_unchanged hmark
    exact hsame.trans (h.unchanged hbefore)
  samePast {l l'} h hpast := by
    refine ⟨hpast.savedVersion.trans h.version, ?_, ?_⟩
    · unfold storedData?
      rw [hpast.long]
      exact h.stored
    · rw [hpast.history]
      exact h.unchanged
  alternatives others h := ⟨h.version, h.stored, h.unchanged⟩

theorem lasting_unsaved : Lasting fun l => l.savedVersion = none where
  advance h hadvance := by
    obtain ⟨head, -, -, rfl⟩ := advance_eq_ok_iff.1 hadvance
    exact h
  samePast h hpast := hpast.savedVersion.trans h
  alternatives _ h := h

/-- Nothing was stored yet, or the store holds the long-term data of a history in the current
layout, which is the registry's own while the mark is down. -/
def Mirrors (l : LiveRegistry) : Prop :=
  l.savedVersion = none ∨ ∃ h : History, Placed h.archive ∧ Rests h.longTerm h.archive l

theorem lasting_mirrors : Lasting Mirrors :=
  lasting_unsaved.or (.ofExists fun h => lasting_rests h.longTerm h.archive)

/-- No hash that is missing in the stored long-term data would be filled in from the chain. -/
def Unaltered (l : LiveRegistry) (s : Surroundings) : Prop :=
  l.savedVersion ≠ none → ∀ data, l.storedData? Store.longTermKey = some data →
    ∀ state ∈ data.states, state.hashIn (l.loadContext s) = state.blockHash

/-- What a registry loads of data that it has stored itself is what it has stored. -/
theorem Mirrors.load (h : Mirrors l) (hunaltered : l.Unaltered s) {currentHeight : Nat}
    (hloaded : l.savedVersion ≠ none → (l.load s currentHeight).1 = .ok true) :
    Mirrors (l.load s currentHeight).2 := by
  have hkept : (l.load s currentHeight).2.savedVersion = l.savedVersion ∧
      (l.load s currentHeight).2.store = l.store := (load_keeps l s currentHeight).2
  rcases h with hnone | ⟨h, hplaced, hversion, hstored, -⟩
  · exact .inl (hkept.1.trans hnone)
  · have hsaved : l.savedVersion ≠ none := by simp [hversion]
    obtain ⟨restored, hsnapshot, -, -, hhistory⟩ := load_eq_ok (hloaded hsaved)
    obtain ⟨short, -, hrestored⟩ := Option.bind_eq_some_iff.1 hsnapshot
    have hlong : l.cleared.storedData? Store.longTermKey = some h.longTerm := hstored
    rw [hlong] at hrestored
    obtain ⟨-, -, harchive, -⟩ := restored_parts (eq_ok_of_toOption hrestored)
    refine .inr ⟨h, hplaced, hkept.1.trans hversion, ?_, fun _ => ?_⟩
    · unfold storedData?
      rw [hkept.2]
      exact hstored
    · rw [hhistory, harchive]
      show byHeight ((h.archive.values.map (·.stored false)).map (·.registry (l.loadContext s))) = _
      rw [SortedMap.values, List.map_map, List.map_map]
      refine byHeight_stored (fun k r hr => (hplaced k r hr).1) fun k r hr => ?_
      refine Registry.restored_of_hashIn (hplaced k r hr).2 ?_
      refine hunaltered hsaved h.longTerm hstored (r.stored false) ?_
      exact List.mem_map_of_mem (List.mem_map_of_mem (SortedMap.get?_eq_some_iff.1 hr))

/-! ## Starting, going back and saving -/

theorem savedVersion_reset (l : LiveRegistry) (hwritable : s.writeFault = none) :
    (l.reset s).2.savedVersion = none := by
  unfold reset
  rw [hwritable]

/-- A start loads what was stored, or deletes it. -/
theorem Mirrors.init (h : Mirrors l) (hwritable : s.writeFault = none)
    (hunaltered : l.Unaltered s) : Mirrors (l.init s).2 := by
  refine lasting_mirrors.init ?_
  unfold foundation
  split
  · exact .inl (l.savedVersion_reset hwritable)
  · dsimp only
    split
    · rename_i hresumes
      exact h.load hunaltered fun _ => (resumes_iff.1 hresumes).1
    · exact .inl (savedVersion_reset _ hwritable)

theorem upToDate_init (l : LiveRegistry) (s : Surroundings) : UpToDate (l.init s).2 := by
  refine lasting_upToDate.init ?_
  unfold foundation
  split
  · exact l.upToDate_reset s
  · dsimp only
    split
    · exact l.upToDate_load s _
    · exact upToDate_reset _ s

theorem UpToDate.archivedBelow (h : UpToDate l) {r : Registry} {sample : Nat}
    (hr : l.history.archive.get? sample = some r) :
    UpToDate { l with head := r, history := archivedBelow l.history sample } :=
  ⟨(h.archive sample r hr).2, placed_empty, h.archive.filter _⟩

theorem UpToDate.detach (h : UpToDate l) (s : Surroundings) (height : Nat) :
    UpToDate (l.detach s height).2 := by
  rcases detach_cases l s height with
    ⟨r, -, hr, heq⟩ | ⟨r, sample, -, hr, heq⟩ | ⟨-, heq⟩
  · rw [heq]
    exact ⟨(h.recent _ r hr).2, h.recent.filter _, h.archive⟩
  · rw [heq]
    exact lasting_upToDate.replay (h.archivedBelow hr) s _
  · rw [heq]
    exact upToDate_init _ s

/-- A way back keeps the store right, unless archived registries are dropped unnoticed. -/
theorem Mirrors.detach (h : Mirrors l) (hwritable : s.writeFault = none)
    (hunaltered : l.Unaltered s)
    (hnoticed : l.savedVersion ≠ none → l.history.archiveChanged = false →
      ∀ r, (l.history.rewind (height - 1)).1 ≠ .fromArchive r) :
    Mirrors (l.detach s height).2 := by
  rcases detach_cases l s height with
    ⟨r, -, -, heq⟩ | ⟨r, sample, hrewind, -, heq⟩ | ⟨-, heq⟩
  · rw [heq]
    rcases h with hnone | ⟨h, hplaced, hrests⟩
    · exact .inl hnone
    · exact .inr ⟨h, hplaced, hrests.version, hrests.stored, hrests.unchanged⟩
  · rw [heq]
    refine lasting_mirrors.replay ?_ s _
    rcases h with hnone | ⟨h, hplaced, hrests⟩
    · exact .inl hnone
    · refine .inr ⟨h, hplaced, hrests.version, hrests.stored, fun hmark => ?_⟩
      exact absurd hrewind (hnoticed (by simp [hrests.version]) hmark r)
  · rw [heq]
    exact h.init hwritable hunaltered

/-- What a save leaves in the store: the data of the archive if it was due, else what was there. -/
theorem storedData?_save (hfits : StoredData.codec.Fits l.history.longTerm)
    (hfork : HardFork.serviceNodes ≤ l.chainFork s) (hsave : l.save s = (.ok (), saved)) :
    saved.head = l.head ∧ saved.history = { l.history with archiveChanged := false } ∧
      saved.savedVersion = some dataVersion ∧
      saved.storedData? Store.longTermKey =
        if l.longTermDue then some l.history.longTerm else l.storedData? Store.longTermKey := by
  unfold save at hsave
  rw [if_neg (HardFork.not_lt.2 hfork)] at hsave
  split at hsave
  · cases hsave
  · cases hsave
    refine ⟨rfl, rfl, rfl, ?_⟩
    unfold storedData? withSnapshot
    dsimp only
    rw [SortedMap.get?_insert_of_ne _ _ Store.longTermKey_ne_shortTermKey]
    by_cases hdue : l.longTermDue = true
    · rw [if_pos hdue, if_pos hdue, SortedMap.get?_insert_self, Option.bind_some,
        StoredData.read?_encode hfits]
    · rw [if_neg hdue, if_neg hdue]

/-- After a save the store holds the data of the archive. -/
theorem Mirrors.rests_save (h : Mirrors l) (hfits : StoredData.codec.Fits l.history.longTerm)
    (hfork : HardFork.serviceNodes ≤ l.chainFork s) (hsave : l.save s = (.ok (), saved)) :
    Rests saved.history.longTerm saved.history.archive saved := by
  obtain ⟨-, hhistory, hversion, hstored⟩ := storedData?_save hfits hfork hsave
  have hsame : saved.history.longTerm = l.history.longTerm := by rw [hhistory]; rfl
  refine ⟨hversion, ?_, fun _ => rfl⟩
  rw [hstored, hsame]
  split
  · rfl
  · rename_i hdue
    simp only [longTermDue, Bool.or_eq_true, bne_iff_ne, not_or, Decidable.not_not,
      Bool.not_eq_true] at hdue
    rcases h with hnone | ⟨h, -, hrests⟩
    · rw [hnone] at hdue
      cases hdue.2
    · rw [hrests.stored, History.longTerm_congr (hrests.unchanged hdue.1).symm]

theorem UpToDate.save (h : UpToDate l) (s : Surroundings) : UpToDate (l.save s).2 := by
  unfold LiveRegistry.save
  split
  · exact h
  · split
    · exact h
    · exact ⟨h.head, h.recent, h.archive⟩

theorem Mirrors.save (h : Mirrors l) (hcurrent : UpToDate l)
    (hfits : StoredData.codec.Fits l.history.longTerm) (s : Surroundings) :
    Mirrors (l.save s).2 := by
  have hsaved := hcurrent.save s
  by_cases hdone : HardFork.serviceNodes ≤ l.chainFork s ∧ l.save s = (.ok (), (l.save s).2)
  · exact .inr ⟨_, hsaved.archive, h.rests_save hfits hdone.1 hdone.2⟩
  · -- Otherwise nothing is stored.
    have hsame : (l.save s).2 = l := by
      unfold LiveRegistry.save at hdone ⊢
      split
      · rfl
      · rename_i hfork
        cases hfault : s.writeFault with
        | some reason => rfl
        | none =>
            rw [hfault, if_neg hfork] at hdone
            exact absurd ⟨HardFork.not_lt.1 hfork, rfl⟩ hdone
    rw [hsame]
    exact h

end Runs

/-! ## Runs -/

/-- A live registry on some store that was started, offered blocks, sent back, saved and loaded in
any order. Going back drops archived registries only while the mark is up or nothing is stored;
what the registry has stored itself, it can load, and no hash is filled in then; and the store can
be emptied. What surrounds the registry may be different each time. -/
inductive Tended : LiveRegistry → Prop where
  | start (settings : Settings) (store : Store) (ledger : List ReturnedStakes) :
      Tended (start settings store ledger)
  | init {l : LiveRegistry} (s : Surroundings) (earlier : Tended l)
      (writable : s.writeFault = none) (unaltered : l.Unaltered s) : Tended (l.init s).2
  | add {l : LiveRegistry} (s : Surroundings) (block : Block) (txs : List Transaction)
      (checkpoint : Option Checkpoint) (earlier : Tended l) :
      Tended (l.addBlock s block txs checkpoint).2
  | addAlt {l : LiveRegistry} (s : Surroundings) (block : Block) (txs : List Transaction)
      (checkpoint : Option Checkpoint) (earlier : Tended l) :
      Tended (l.addAltBlock s block txs checkpoint).2
  | detach {l : LiveRegistry} (s : Surroundings) (height : Nat) (earlier : Tended l)
      (writable : s.writeFault = none) (unaltered : l.Unaltered s)
      (noticed : l.savedVersion ≠ none → l.history.archiveChanged = false →
        ∀ r, (l.history.rewind (height - 1)).1 ≠ .fromArchive r) : Tended (l.detach s height).2
  | save {l : LiveRegistry} (s : Surroundings) (earlier : Tended l)
      (fits : StoredData.codec.Fits l.history.longTerm) : Tended (l.save s).2
  | load {l : LiveRegistry} (s : Surroundings) (currentHeight : Nat) (earlier : Tended l)
      (unaltered : l.Unaltered s)
      (loaded : l.savedVersion ≠ none → (l.load s currentHeight).1 = .ok true) :
      Tended (l.load s currentHeight).2

theorem Tended.mirrors {l : LiveRegistry} (h : Tended l) : UpToDate l ∧ Mirrors l := by
  induction h with
  | start settings store ledger =>
      have hempty : UpToDate (LiveRegistry.start settings store ledger).cleared := upToDate_cleared _
      exact ⟨⟨hempty.head, hempty.recent, hempty.archive⟩, .inl rfl⟩
  | init s _ writable unaltered ih =>
      exact ⟨upToDate_init _ s, ih.2.init writable unaltered⟩
  | add _ _ _ _ _ ih => exact (lasting_upToDate.and lasting_mirrors).addBlock ih
  | addAlt _ _ _ _ _ ih => exact (lasting_upToDate.and lasting_mirrors).addAltBlock ih
  | detach s height _ writable unaltered noticed ih =>
      exact ⟨ih.1.detach s height, ih.2.detach writable unaltered noticed⟩
  | save s _ fits ih => exact ⟨ih.1.save s, ih.2.save ih.1 fits s⟩
  | load s currentHeight _ unaltered loaded ih =>
      exact ⟨upToDate_load _ s currentHeight, ih.2.load unaltered loaded⟩

/-- After every save the stored long-term data is that of the archive. After a way back into the
archive, blocks and another save, it is exactly if one of these blocks archived something. -/
theorem Tended.mirrored {l saved : LiveRegistry} {s : Surroundings} (h : Tended l)
    (hfits : StoredData.codec.Fits l.history.longTerm)
    (hfork : HardFork.serviceNodes ≤ l.chainFork s) (hsave : l.save s = (.ok (), saved)) :
    saved.storedData? Store.longTermKey = some saved.history.longTerm ∧
      ∀ (s' : Surroundings) (height : Nat) (sample : Registry),
        (saved.history.rewind (height - 1)).1 = .fromArchive sample →
        ∀ l', Extends (saved.detach s' height).2 l' →
        ∀ s'' saved', StoredData.codec.Fits l'.history.longTerm →
          HardFork.serviceNodes ≤ l'.chainFork s'' → l'.save s'' = (.ok (), saved') →
          (saved'.storedData? Store.longTermKey = some saved'.history.longTerm ↔
            l'.history.archiveChanged = true) := by
  have hrests := h.mirrors.2.rests_save hfits hfork hsave
  refine ⟨hrests.stored, ?_⟩
  intro s' height sample hrewind l' hextends s'' saved' hfits' hfork' hsave'
  obtain ⟨k, hr, heq⟩ := detach_from_archive hrewind s'
  -- The mark was put down by the save, and the way back leaves it there.
  have hdetached : Rests saved.history.longTerm
      (saved.history.archive.filter fun k' _ => decide (k' < k)) (saved.detach s' height).2 := by
    rw [heq]
    refine (lasting_rests _ _).replay (l := { saved with
      head := sample, history := archivedBelow saved.history k }) ?_ s' _
    exact ⟨hrests.version, hrests.stored, fun _ => rfl⟩
  have hlater := (lasting_rests _ _).extended hdetached hextends
  obtain ⟨-, hhistory, -, hstored⟩ := storedData?_save hfits' hfork' hsave'
  have hsame : saved'.history.longTerm = l'.history.longTerm := by rw [hhistory]; rfl
  rw [hstored, hsame]
  cases hmark : l'.history.archiveChanged with
  | true =>
      rw [if_pos (by simp [longTermDue, hmark])]
      exact iff_of_true rfl rfl
  | false =>
      rw [if_neg (by simp [longTermDue, hmark, hlater.version]), hlater.stored]
      refine iff_of_false (fun heq => ?_) Bool.false_ne_true
      exact History.longTerm_filter_ne hr (hlater.unchanged hmark) (Option.some.inj heq)

/-- Three blocks, a save, a way back to the first registry, which was archived, and another save:
the archive is empty by then, and the store still holds that registry. -/
theorem Tended.stale_after_detach : ∃ l s saved l' saved', Tended l ∧
    l.save s = (.ok (), saved) ∧
    saved.storedData? Store.longTermKey = some saved.history.longTerm ∧
    (∃ sample, (saved.history.rewind 0).1 = .fromArchive sample) ∧
    Extends (saved.detach s 1).2 l' ∧ l'.save s = (.ok (), saved') ∧
    saved'.history.longTerm.states = [] ∧
    (saved'.storedData? Store.longTermKey).map (·.states.map (·.height)) = some [0] ∧
    saved'.storedData? Store.longTermKey ≠ some saved'.history.longTerm := by
  let s : Surroundings :=
    ⟨.trusting, ⟨4, fun _ => none, fun _ => some (.plain 0 .v21), fun _ => none⟩, 0, none, none, 0⟩
  let take (l : LiveRegistry) (height : Nat) := (l.addBlock s (.plain height .v21) [] none).2
  let l := take (take (take ((LiveRegistry.start .bridged ∅ []).init .trusting).2 1) 2) 3
  let saved := (l.save s).2
  let l' := (saved.detach s 1).2
  let saved' := (l'.save s).2
  have hl : Tended l := .add _ _ _ _ (.add _ _ _ _ (.add _ _ _ _
    (.init .trusting (.start .bridged ∅ []) rfl fun hsaved => absurd rfl hsaved)))
  have hsave : l.save s = (.ok (), saved) := done_of_toOption (by decide +kernel)
  have hsave' : l'.save s = (.ok (), saved') := done_of_toOption (by decide +kernel)
  have hrewind : (saved.history.rewind 0).1 = .fromArchive (.new 0) := by decide +kernel
  obtain ⟨hright, hiff⟩ := hl.mirrored (by decide +kernel) (by decide +kernel) hsave
  have hstale := hiff s 1 (.new 0) hrewind l' .refl s saved' (by decide +kernel) (by decide +kernel)
    hsave'
  have hmark : l'.history.archiveChanged = false := by decide +kernel
  refine ⟨l, s, saved, l', saved', hl, hsave, hright, ⟨.new 0, hrewind⟩, .refl, hsave',
    by decide +kernel, by decide +kernel, fun hheld => ?_⟩
  rw [hstale.1 hheld] at hmark
  cases hmark

end LiveRegistry

end StakeRegistry
