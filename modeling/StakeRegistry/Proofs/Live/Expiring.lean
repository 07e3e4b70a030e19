import StakeRegistry.Live.Query
import StakeRegistry.Proofs.Live.Resuming

/-!
# Who expired of late

A live registry notes the BLS keys of nodes that expire in the blocks that it takes, each with the
last height at which it counts as expired of late. Blocks alone keep these notes in line with the
chain (`LiveRegistry.get?_recentlyExpired_addBlock`). A way back leaves them as they are, although
it takes blocks off the chain, and a new start forgets them all, although it applies the chain again
(`LiveRegistry.detach_keeps`). Main statement:

* `LiveRegistry.Watched.recently_expired`: a BLS key other than zero counts as expired of late
  exactly while the window of an expiry on the chain is open, as long as no way back changes which
  window is open, and the key does not expire again before its window has ended.
-/

set_option autoImplicit false

namespace StakeRegistry

namespace LiveRegistry

/-! ## Notes of one block -/

section Notes

variable {l l' next : LiveRegistry} {s : Surroundings} {block : Block} {txs : List Transaction}
  {checkpoint : Option Checkpoint} {outcome : Outcome}

/-- A key that is noted keeps its last height; one that expires is noted if it is not. -/
theorem get?_noteExpired (l : LiveRegistry) (outcome : Outcome) (blsKey : BlsKey) :
    (l.noteExpired outcome).recentlyExpired.get? blsKey =
      (l.recentlyExpired.get? blsKey).or
        (if outcome.expired.any fun p => p.2 == blsKey then
          some (wrapAdd l.head.height l.rules.exitBuffer) else none) := by
  show (outcome.expired.foldl _ l.recentlyExpired).get? blsKey = _
  generalize wrapAdd l.head.height l.rules.exitBuffer = last
  generalize l.recentlyExpired = noted
  induction outcome.expired generalizing noted with
  | nil => simp
  | cons p expired ih =>
      obtain ⟨node, key⟩ := p
      rw [List.foldl_cons, ih, List.any_cons]
      by_cases hkey : key = blsKey
      · subst hkey
        cases hnoted : noted.get? key with
        | none => simp [SortedMap.contains, hnoted]
        | some old => simp [SortedMap.contains, hnoted]
      · have hother : (if noted.contains key then noted else noted.insert key last).get? blsKey =
            noted.get? blsKey := by
          split
          · rfl
          · exact SortedMap.get?_insert_of_ne _ _ (Ne.symm hkey)
        dsimp only
        rw [hother, beq_eq_false_iff_ne.2 hkey, Bool.false_or]

/-- Records, the ledger and the store have no part in who expired of late. -/
theorem recentlyExpired_afterBlock (l : LiveRegistry) (s : Surroundings) (outcome : Outcome)
    (block : Block) : ((l.takeEffects s outcome).notePulse s block).2.forgetExpired.recentlyExpired =
      (l.noteExpired outcome).forgetExpired.recentlyExpired := by
  obtain ⟨records, hpulse⟩ := ButRecords.notePulse (l.takeEffects s outcome) s block
  obtain ⟨records', hchanged⟩ := ButRecords.changeRecords l outcome
  rw [hpulse]
  unfold takeEffects saveRecords
  rw [hchanged]
  split <;> rfl

/-- A block that is added changes the window that is noted for a BLS key as it changes the window on
the chain. -/
theorem get?_recentlyExpired_addBlock (l : LiveRegistry) (s : Surroundings) (block : Block)
    (txs : List Transaction) (checkpoint : Option Checkpoint) (blsKey : BlsKey) :
    (l.addBlock s block txs checkpoint).2.recentlyExpired.get? blsKey =
      (l.added s block txs checkpoint).foldl (windowAfter l.rules blsKey)
        (l.recentlyExpired.get? blsKey) := by
  unfold added
  rw [addBlock_eq]
  by_cases hfork : block.fork < HardFork.serviceNodes
  · rw [if_pos hfork, if_pos hfork, List.foldl_nil]
  · rw [if_neg hfork, if_neg hfork]
    cases hadvance : l.advance s block txs checkpoint true with
    | error e => rfl
    | ok p =>
        obtain ⟨outcome, next⟩ := p
        obtain ⟨head, happly, -, rfl⟩ := advance_eq_ok_iff.1 hadvance
        have hheight : head.height = block.height := Registry.height_of_apply happly
        let a : Applied := ⟨l.context s l.view, block, txs, l.head, head⟩
        have hexpired : outcome.expired = (a.draftAt 0).outcome.expired :=
          Applied.expired_of_apply happly
        dsimp only
        rw [recentlyExpired_afterBlock]
        refine (SortedMap.get?_filter ..).trans ?_
        rw [get?_noteExpired, hexpired]
        show Option.filter (fun last => decide (head.height ≤ last))
          ((l.recentlyExpired.get? blsKey).or
            (if a.expires blsKey then some (wrapAdd head.height l.rules.exitBuffer) else none)) = _
        rw [hheight]
        rfl

end Notes

/-! ## Notes of other operations -/

section Others

variable (l : LiveRegistry) (s : Surroundings) (heights : List Nat) (height : Nat)

/-- Blocks that are applied again are not noted. -/
theorem replay_keeps : (replay s heights l).2.settings = l.settings ∧
    (replay s heights l).2.recentlyExpired = l.recentlyExpired := by
  refine @replay_induction
    (fun l' _ => l'.settings = l.settings ∧ l'.recentlyExpired = l.recentlyExpired) l [] s
    (fun hl hadvance => ?_) heights ⟨rfl, rfl⟩
  obtain ⟨head, -, -, rfl⟩ := advance_eq_ok_iff.1 hadvance
  exact hl

/-- A start notes nothing, whatever it builds upon. -/
theorem foundation_keeps :
    (l.foundation s).settings = l.settings ∧ (l.foundation s).recentlyExpired = ∅ := by
  have hreset : ∀ l' : LiveRegistry, (l'.reset s).2.settings = l'.settings ∧
      (l'.reset s).2.recentlyExpired = ∅ := by
    intro l'
    unfold reset
    split <;> exact ⟨rfl, rfl⟩
  have hload : (l.load s s.chain.currentHeight).2.settings = l.settings ∧
      (l.load s s.chain.currentHeight).2.recentlyExpired = ∅ := by
    have hloading := loading l s s.chain.currentHeight
    generalize l.load s s.chain.currentHeight = result at hloading
    cases hloading <;> exact ⟨rfl, rfl⟩
  unfold foundation
  dsimp only
  split
  · exact hreset l
  · split
    · exact hload
    · rw [(hreset _).1]
      exact ⟨hload.1, (hreset _).2⟩

theorem init_keeps : (l.init s).2.settings = l.settings ∧ (l.init s).2.recentlyExpired = ∅ := by
  obtain ⟨hsettings, hnotes⟩ := replay_keeps (l.foundation s) s (l.startHeights s)
  rw [init_eq_replay, hsettings, hnotes]
  exact l.foundation_keeps s

/-- A way back leaves the notes as they are, unless it has to start anew. -/
theorem detach_keeps : (l.detach s height).2.settings = l.settings ∧
    (l.detach s height).2.recentlyExpired =
      if (l.history.rewind (height - 1)).1 = .reinitialise then ∅ else l.recentlyExpired := by
  rcases detach_cases l s height with
    ⟨r, hrewind, -, heq⟩ | ⟨r, sample, hrewind, -, heq⟩ | ⟨hrewind, heq⟩
  · rw [heq, hrewind]
    exact ⟨rfl, rfl⟩
  · rw [heq, hrewind]
    exact replay_keeps _ s _
  · rw [heq, if_pos hrewind]
    exact init_keeps _ s

end Others

/-! ## Runs -/

/-- A live registry that was started on a store without a snapshot, was then offered blocks and went
back whenever its chain was cut, together with the chain that its head rests on. No way back changes
the window that is open for a BLS key on that chain, and none is open after a new start. What
surrounds the registry may be different each time, and every operation may fail. -/
inductive Watched (blsKey : BlsKey) : LiveRegistry → List Applied → Prop where
  | init {l : LiveRegistry} (s : Surroundings)
      (noSnapshot : l.store.get? Store.shortTermKey = none)
      (quiet : windowEnd l.rules blsKey (l.started s) = none) :
      Watched blsKey (l.init s).2 (l.started s)
  | add {l : LiveRegistry} {chain : List Applied} (s : Surroundings) (block : Block)
      (txs : List Transaction) (checkpoint : Option Checkpoint)
      (earlier : Watched blsKey l chain) :
      Watched blsKey (l.addBlock s block txs checkpoint).2 (chain ++ l.added s block txs checkpoint)
  | detach {l : LiveRegistry} {chain : List Applied} (s : Surroundings) (height : Nat)
      (earlier : Watched blsKey l chain)
      (same : windowEnd l.rules blsKey (l.resumed s height chain) =
        if (l.history.rewind (height - 1)).1 = .reinitialise then none
        else windowEnd l.rules blsKey chain) :
      Watched blsKey (l.detach s height).2 (l.resumed s height chain)

namespace Watched

variable {blsKey : BlsKey} {l : LiveRegistry} {chain : List Applied}

theorem noSnapshot (h : Watched blsKey l chain) : l.store.get? Store.shortTermKey = none := by
  induction h with
  | init s noSnapshot => exact (tidy_init noSnapshot s).2
  | add _ _ _ _ _ ih => exact Lasting.noSnapshot.addBlock ih
  | @detach l chain s height _ _ ih =>
      rcases detach_cases l s height with ⟨r, -, -, heq⟩ | ⟨r, sample, -, -, heq⟩ | ⟨-, heq⟩
      · rw [heq]
        exact ih
      · rw [heq]
        exact Lasting.noSnapshot.replay (l := { l with head := r, history := _ }) ih s _
      · rw [heq]
        exact (tidy_init (l := { l with history := _ }) ih s).2

theorem charted (h : Watched blsKey l chain) : Charted l chain := by
  induction h with
  | init s noSnapshot => exact charted_init noSnapshot s
  | add _ _ _ _ _ ih => exact ih.addBlock
  | detach s height earlier _ ih => exact ih.detach earlier.noSnapshot s height

/-- The window that is noted is the one that is open on the chain. -/
theorem get?_recentlyExpired (h : Watched blsKey l chain) :
    l.recentlyExpired.get? blsKey = windowEnd l.rules blsKey chain := by
  induction h with
  | @init l s noSnapshot quiet =>
      obtain ⟨hsettings, hnone⟩ := l.init_keeps s
      unfold rules at quiet ⊢
      rw [hsettings, hnone, quiet]
      rfl
  | @add l chain s block txs checkpoint earlier ih =>
      have hsettings : (l.addBlock s block txs checkpoint).2.rules = l.rules :=
        congrArg Settings.rules (settings_addBlock ..)
      rw [get?_recentlyExpired_addBlock, hsettings, ih]
      unfold windowEnd
      rw [List.foldl_append]
  | @detach l chain s height earlier same ih =>
      obtain ⟨hsettings, hnotes⟩ := l.detach_keeps s height
      unfold rules at same ih ⊢
      rw [hsettings, hnotes, same]
      split
      · rfl
      · exact ih

/-- A BLS key is noted exactly while a window is open for it. -/
theorem isRecentlyExpired_iff (h : Watched blsKey l chain) :
    l.isRecentlyExpired blsKey = true ↔ ∃ last, windowEnd l.rules blsKey chain = some last := by
  rw [← h.get?_recentlyExpired]
  exact Option.isSome_iff_exists

end Watched

end LiveRegistry

/-! ## A chain on which a node expires -/

/-- The request of the node with a BLS key to leave. -/
def Transaction.leaving (blsKey : BlsKey) : Transaction :=
  { (default : Transaction) with kind := .bridgeLeave, extra := [.bridgeLeave blsKey] }

namespace LiveRegistry

/-- A registry and the chain that it rests on, after blocks were offered to it. -/
def afterBlocks (s : Surroundings) (blocks : List (Block × List Transaction))
    (run : LiveRegistry × List Applied) : LiveRegistry × List Applied :=
  blocks.foldl (fun run b =>
    ((run.1.addBlock s b.1 b.2 none).2, run.2 ++ run.1.added s b.1 b.2 none)) run

theorem Watched.afterBlocks {blsKey : BlsKey} {run : LiveRegistry × List Applied}
    (h : Watched blsKey run.1 run.2) (s : Surroundings)
    (blocks : List (Block × List Transaction)) :
    Watched blsKey (LiveRegistry.afterBlocks s blocks run).1
      (LiveRegistry.afterBlocks s blocks run).2 := by
  induction blocks generalizing run with
  | nil => exact h
  | cons b blocks ih => exact ih (.add s b.1 b.2 none h)

/-- A node registers in the first block, and asks to leave in the second. -/
def shortLife (height : Nat) : Block × List Transaction :=
  (.plain height .v21,
    if height = 1 then [.registering 1]
    else if height = 2 then [.leaving (.writing 1)]
    else [])

/-! ## Who counts as expired of late -/

/-- In every run the blocks on record lead to the head, and a BLS key is noted with the end of the
window that is open on that chain. A key other than zero counts as expired of late only if a node of
the bridge with that key expired in a block of the chain whose window of `exitBuffer` blocks reaches
the head. If the key never expires again in a window of its own or in the block after, it counts
exactly then. A way back leaves the answer as it is, unless it starts anew, which makes it false. -/
theorem Watched.recently_expired {blsKey : BlsKey} {l : LiveRegistry} {chain : List Applied}
    (h : Watched blsKey l chain) (hkey : blsKey ≠ 0) :
    Registry.Built chain l.head ∧
    l.recentlyExpired.get? blsKey = windowEnd l.rules blsKey chain ∧
    (l.isRecentlyExpired blsKey = true →
      ∃ height, ExpiredAt chain .bridge blsKey height ∧ height ≤ l.head.height ∧
        l.head.height ≤ wrapAdd height l.rules.exitBuffer) ∧
    ((∀ height height', ExpiredAt chain .bridge blsKey height →
        ExpiredAt chain .bridge blsKey height' → height < height' →
        wrapAdd height l.rules.exitBuffer + 1 < height') →
      (l.isRecentlyExpired blsKey = true ↔
        ∃ height, ExpiredAt chain .bridge blsKey height ∧ height ≤ l.head.height ∧
          l.head.height ≤ wrapAdd height l.rules.exitBuffer)) ∧
    ∀ (s : Surroundings) (height : Nat), (l.detach s height).2.isRecentlyExpired blsKey =
      if (l.history.rewind (height - 1)).1 = .reinitialise then false
      else l.isRecentlyExpired blsKey := by
  have hbuilt := h.charted.head
  have hsound : l.isRecentlyExpired blsKey = true →
      ∃ height, ExpiredAt chain .bridge blsKey height ∧ height ≤ l.head.height ∧
        l.head.height ≤ wrapAdd height l.rules.exitBuffer := by
    intro hnoted
    obtain ⟨last, hopen⟩ := h.isRecentlyExpired_iff.1 hnoted
    obtain ⟨hlast, a, ha, hexpires, rfl⟩ := hbuilt.windowEnd_sound hopen
    exact ⟨a.block.height, (hbuilt.expiredAt_bridge_iff hkey).2 ⟨a, ha, rfl, hexpires⟩,
      hbuilt.height_le a ha, hlast⟩
  refine ⟨hbuilt, h.get?_recentlyExpired, hsound, fun hspaced => ⟨hsound, ?_⟩, fun s height => ?_⟩
  · rintro ⟨height, hexpired, -, hlast⟩
    obtain ⟨a, ha, rfl, hexpires⟩ := (hbuilt.expiredAt_bridge_iff hkey).1 hexpired
    refine h.isRecentlyExpired_iff.2 ⟨_, hbuilt.windowEnd_eq ha hexpires hlast ?_⟩
    intro b hb hearlier hbelow
    have hbefore := (hbuilt.expiredAt_bridge_iff hkey).2 ⟨b, hb, rfl, hearlier⟩
    exact hspaced _ _ hbefore hexpired hbelow
  · unfold isRecentlyExpired
    rw [(l.detach_keeps s height).2]
    split <;> rfl

/-- A node expires in block 32. After one more block, which the chain drops again, its key counts as
expired of late, as the chain says. When the chain drops everything from block 2 on, the key still
does, although nobody has expired on the chain that is left. -/
theorem Watched.recently_expired_stale :
    ∃ l chain s, Watched (.writing 1) l chain ∧ (.writing 1 : BlsKey) ≠ 0 ∧ l.head.height = 32 ∧
      l.isRecentlyExpired (.writing 1) = true ∧ ExpiredAt chain .bridge (.writing 1) 32 ∧
      (l.detach s 2).1 = .ok () ∧ (l.detach s 2).2.head.height = 1 ∧
      (l.detach s 2).2.isRecentlyExpired (.writing 1) = true ∧
      ∀ height, ¬ ExpiredAt (l.resumed s 2 chain) .bridge (.writing 1) height := by
  let s : Surroundings := .trusting
  let begun := ((start .bridged ∅ []).init s).2
  let run := LiveRegistry.afterBlocks s ((List.range' 1 33).map shortLife) (begun, [])
  let l := (run.1.detach s 33).2
  let chain := run.1.resumed s 33 run.2
  have hkey : (.writing 1 : BlsKey) ≠ 0 := by decide +kernel
  have hbegun : Watched (.writing 1) begun [] := .init s rfl rfl
  have hrun : Watched (.writing 1) l chain :=
    .detach s 33 (@Watched.afterBlocks _ (begun, []) hbegun s _) (by decide +kernel)
  have hnoted : l.isRecentlyExpired (.writing 1) = true := by decide +kernel
  have hkept : ¬ (l.history.rewind 1).1 = .reinitialise := by decide +kernel
  obtain ⟨hbuilt, -, -, -, hback⟩ := hrun.recently_expired hkey
  have hexpired : ∃ a ∈ chain, a.block.height = 32 ∧ a.expires (.writing 1) = true := by
    have hany : chain.any (fun a => a.block.height == 32 && a.expires (.writing 1)) = true := by
      decide +kernel
    simpa using hany
  have hnobody : ∀ a ∈ l.resumed s 2 chain, ¬ a.expires (.writing 1) = true := by
    have hall : (l.resumed s 2 chain).all (fun a => !a.expires (.writing 1)) = true := by
      decide +kernel
    simpa using hall
  have hleft := (hrun.charted.detach hrun.noSnapshot s 2).head
  refine ⟨l, chain, s, hrun, hkey, by decide +kernel, hnoted,
    (hbuilt.expiredAt_bridge_iff hkey).2 hexpired, by decide +kernel, by decide +kernel,
    ?_, fun height hheight => ?_⟩
  · rw [hback s 2, if_neg hkept, hnoted]
  · obtain ⟨a, ha, -, hexpires⟩ := (hleft.expiredAt_bridge_iff hkey).1 hheight
    exact hnobody a ha hexpires

end LiveRegistry

end StakeRegistry
