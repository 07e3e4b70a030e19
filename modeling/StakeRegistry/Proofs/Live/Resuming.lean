import StakeRegistry.Proofs.Live.Roaming
import StakeRegistry.Proofs.Transition.Expiries

/-!
# The blocks below the head

A live registry that started without a snapshot rests on a chain of blocks: those that it has
applied and not dropped since. Going back drops the blocks above the registry that it goes back to,
and goes on with those that are applied again (`LiveRegistry.resumed`). The tiers of history hold
registries of the same chain (`History.Charts`), so the head is always the registry that the chain
leads to. Main statements:

* `LiveRegistry.Charted.advance`: one more block;
* `LiveRegistry.Charted.detach`: a way back.
-/

set_option autoImplicit false

namespace StakeRegistry

/-! ## The tiers of a chain -/

namespace History

/-- The full registries in the tiers are those that a chain has led to at their heights. -/
structure Charts (h : History) (chain : List Applied) (top : Nat) : Prop where
  recent : ∀ k r, h.recent.get? k = some r →
    k < top ∧ r.height = k ∧ Registry.Built (upTo chain k) r
  archive : ∀ k r, h.archive.get? k = some r →
    k < top ∧ (∀ k' r', h.recent.get? k' = some r' → k < k') ∧
      (r.quorumsOnly = false → r.height = k ∧ Registry.Built (upTo chain k) r)

theorem charts_of_empty {h : History} (hrecent : h.recent = ∅) (harchive : h.archive = ∅)
    (chain : List Applied) (top : Nat) : h.Charts chain top := by
  constructor
  · intro k r hr
    rw [hrecent] at hr
    cases hr
  · intro k r hr
    rw [harchive] at hr
    cases hr

namespace Charts

variable {h : History} {chain : List Applied} {top height : Nat} {r : Registry}

/-- The next block keeps the tiers in line with the chain. -/
theorem push (hh : h.Charts chain top) {previous : Registry} (hprevious : previous.height = top)
    (hbuilt : Registry.Built chain previous) {a : Applied} (ha : a.block.height = top + 1) :
    (h.push (top + 1) previous).Charts (chain ++ [a]) (top + 1) := by
  have hbelow : ∀ {k : Nat} {r : Registry}, k < top → Registry.Built (upTo chain k) r →
      Registry.Built (upTo (chain ++ [a]) k) r := by
    intro k r hk hr
    rw [upTo_append_of_lt chain (by omega)]
    exact hr
  have hmany : 1 < recentBlocks := by decide
  have hfloor : cullHeight (top + 1) = top + 1 - recentBlocks := rfl
  constructor
  · intro k r hr
    rcases recent_push_cases h _ _ hr with ⟨rfl, rfl⟩ | ⟨-, hr⟩
    · refine ⟨by omega, rfl, ?_⟩
      rw [upTo_append_of_lt chain (by omega), hbuilt.upTo_eq (Nat.le_refl _)]
      exact hbuilt
    · obtain ⟨hk, hheight, hr⟩ := hh.recent k r hr
      exact ⟨by omega, hheight, hbelow hk hr⟩
  · intro k r hr
    rcases archive_push_cases h _ _ hr with ⟨hculled, old, hold, hkept⟩ | hr
    · obtain ⟨hk, hheight, hbuilt⟩ := hh.recent k old hold
      refine ⟨by omega, fun k' r' hr' => ?_, fun hfull => ?_⟩
      · rcases recent_push_cases h _ _ hr' with ⟨rfl, -⟩ | ⟨hstays, -⟩ <;> omega
      · rcases eq_of_archived? hkept with rfl | rfl
        · exact ⟨hheight, hbelow hk hbuilt⟩
        · cases hfull
    · obtain ⟨hk, hapart, hr⟩ := hh.archive k r hr
      refine ⟨by omega, fun k' r' hr' => ?_, fun hfull => (hr hfull).imp_right (hbelow hk)⟩
      rcases recent_push_cases h _ _ hr' with ⟨rfl, -⟩ | ⟨-, hr'⟩
      · omega
      · exact hapart k' r' hr'

/-- Going back to a recent registry leaves the tiers of the chain below it. -/
theorem rewind_to_recent (hh : h.Charts chain top) (hr : h.recent.get? height = some r) :
    ({ h with recent := h.recent.filter fun k _ => decide (k < height) } : History).Charts
      (upTo chain height) height := by
  constructor
  · intro k r' hr'
    rw [SortedMap.get?_filter] at hr'
    obtain ⟨hr', hlow⟩ := Option.filter_eq_some_iff.1 hr'
    obtain ⟨-, hheight, hbuilt⟩ := hh.recent k r' hr'
    have hlow : k < height := by simpa using hlow
    rw [upTo_upTo chain (Nat.le_of_lt hlow)]
    exact ⟨hlow, hheight, hbuilt⟩
  · intro k r' hr'
    obtain ⟨-, hapart, hbuilt⟩ := hh.archive k r' hr'
    have hlow := hapart height r hr
    rw [upTo_upTo chain (Nat.le_of_lt hlow)]
    refine ⟨hlow, fun k' r'' hr'' => ?_, hbuilt⟩
    rw [SortedMap.get?_filter] at hr''
    exact hapart k' r'' (Option.filter_eq_some_iff.1 hr'').1

/-- Going back to an archived registry leaves the archive of the chain below it. -/
theorem rewind_to_archive (hh : h.Charts chain top) (height : Nat) :
    (LiveRegistry.archivedBelow h height).Charts (upTo chain height) height := by
  constructor
  · intro k r hr
    cases hr
  · intro k r hr
    obtain ⟨hr, hlow⟩ := Option.filter_eq_some_iff.1 ((SortedMap.get?_filter ..).symm.trans hr)
    have hlow : k < height := by simpa using hlow
    rw [upTo_upTo chain (Nat.le_of_lt hlow)]
    refine ⟨hlow, fun k' r' hr' => ?_, (hh.archive k r hr).2.2⟩
    cases hr'

end Charts

end History

/-! ## Runs -/

namespace LiveRegistry

/-- The head is the registry that a chain leads to, and the tiers hold what it has led to before. -/
structure Charted (l : LiveRegistry) (chain : List Applied) : Prop where
  head : Registry.Built chain l.head
  tiers : l.history.Charts chain l.head.height

/-- The blocks that the head rests on after a way back: those of the chain below the registry that
it goes back to, and those that are applied again. -/
def resumed (l : LiveRegistry) (s : Surroundings) (height : Nat) (chain : List Applied) :
    List Applied :=
  match l.history.rewind (height - 1) with
  | (.restored r, _) => upTo chain r.height
  | (.fromArchive r, history) =>
      upTo chain r.height ++
        replayed s (List.range' (r.height + 1) (min height s.chain.currentHeight - (r.height + 1)))
          { l with head := r, history := history }
  | (.reinitialise, history) => started { l with history := history } s

section Charted

variable {l l' next : LiveRegistry} {chain : List Applied} {s : Surroundings} {block : Block}
  {txs : List Transaction} {checkpoint : Option Checkpoint} {verify : Bool} {outcome : Outcome}

theorem Charted.of_samePast (h : Charted l chain) (hpast : l.SamePast l') : Charted l' chain := by
  constructor
  · rw [hpast.head]
    exact h.head
  · rw [hpast.history, hpast.head]
    exact h.tiers

theorem Charted.advance (h : Charted l chain)
    (hadvance : l.advance s block txs checkpoint verify = .ok (outcome, next)) :
    Charted next (chain ++ [l.applied s block txs next]) := by
  obtain ⟨head, happly, -, rfl⟩ := advance_eq_ok_iff.1 hadvance
  have hafter : head.height = block.height := Registry.height_of_apply happly
  have hbefore : l.head.height + 1 = block.height := Registry.height_before_apply happly
  refine ⟨.snoc h.head happly, ?_⟩
  show (l.history.push block.height l.head).Charts _ head.height
  rw [hafter, ← hbefore]
  exact h.tiers.push rfl h.head hbefore.symm

theorem charted_reset (l : LiveRegistry) (s : Surroundings) : Charted (l.reset s).2 [] := by
  unfold reset
  split <;> exact ⟨.new _, History.charts_of_empty rfl rfl _ _⟩

theorem charted_init (hstore : l.store.get? Store.shortTermKey = none) (s : Surroundings) :
    Charted (l.init s).2 (l.started s) :=
  (Recorded.init hstore).invariant charted_reset (fun h hadvance => h.advance hadvance)
    fun h hpast => h.of_samePast hpast

theorem Charted.addBlock (h : Charted l chain) :
    Charted (l.addBlock s block txs checkpoint).2 (chain ++ l.added s block txs checkpoint) :=
  addBlock_induction (fun h hadvance => h.advance hadvance) (fun h hpast => h.of_samePast hpast) h

/-- A way back leads to a registry of the chain, and the blocks applied again after it extend the
chain from there. -/
theorem Charted.detach (h : Charted l chain) (hstore : l.store.get? Store.shortTermKey = none)
    (s : Surroundings) (height : Nat) :
    Charted (l.detach s height).2 (l.resumed s height chain) := by
  unfold LiveRegistry.detach resumed History.rewind
  cases hrecent : History.fullAt? l.history.recent (height - 1) with
  | some r =>
      obtain ⟨hr, -⟩ := fullAt?_eq_some hrecent
      obtain ⟨-, hheight, hbuilt⟩ := h.tiers.recent _ r hr
      dsimp only
      rw [hheight]
      exact ⟨hbuilt, by rw [hheight]; exact h.tiers.rewind_to_recent hr⟩
  | none =>
      dsimp only
      generalize (height - 1) - (height - 1) % archiveInterval = sample
      cases harchive : History.fullAt? l.history.archive sample with
      | some r =>
          obtain ⟨hr, hfull⟩ := fullAt?_eq_some harchive
          obtain ⟨hheight, hbuilt⟩ := (h.tiers.archive _ r hr).2.2 hfull
          dsimp only
          refine replay_induction (P := Charted) (fun h hadvance => h.advance hadvance) _ ?_
          rw [hheight]
          exact ⟨hbuilt, by rw [hheight]; exact h.tiers.rewind_to_archive sample⟩
      | none => exact charted_init hstore s

end Charted

end LiveRegistry

end StakeRegistry
