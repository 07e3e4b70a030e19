import StakeRegistry.Proofs.Live.Restarting

/-!
# Reorganisations

A registry that followed one branch, goes back below its first block and then takes the blocks
of another should be like one that never saw the first branch. It has the same head, but not the
same past: what left the recent registries on the first branch does not come back
(`History.LetGo`). After a deep reorganisation votes may still name some of these heights, and
then a state change that is carried without the first branch finds no quorum after it. Main
statements:

* `History.Holds.obligations?_rewind`: what is on record after going back to a recent registry;
* `OnCourse.headAt_congr`: registries that follow one chain publish the same heads;
* `Follows.reorg_traceless_unless_lost`: which reorganisations and which blocks leave no trace.
-/

set_option autoImplicit false

namespace StakeRegistry

/-! ## The past after going back -/

namespace History

/-- The heights whose registries are gone when the head is at `top`: they are too old to be
recent ones, and archived in no form. -/
def LetGo (top height : Nat) : Prop :=
  height ≤ cullHeight top ∧ neededByVotes height = false ∧ height % archiveInterval ≠ 0

instance (top height : Nat) : Decidable (LetGo top height) :=
  inferInstanceAs (Decidable (_ ∧ _))

/-- What has been let go lies well below the head. -/
theorem LetGo.lt {top height : Nat} (h : LetGo top height) : height + recentBlocks ≤ top := by
  have hold : height ≤ top - recentBlocks := h.1
  have hpositive : height ≠ 0 := by
    rintro rfl
    exact h.2.2 (Nat.zero_mod _)
  omega

/-- When few blocks are dropped, whatever has been let go lies below all heights that votes in
the next block may name. -/
theorem not_letGo_of_shallow {top next height : Nat}
    (hshallow : top + 1 ≤ next + (recentBlocks - voteLifetime))
    (hlive : next ≤ height + voteLifetime) : ¬ LetGo top height := by
  intro hgone
  have hold := hgone.lt
  have hlonger : voteLifetime < recentBlocks := by decide
  omega

/-- The archive keeps the quorums of a registry, or nothing of it. -/
theorem obligations_archived? (height : Nat) (r : Registry) :
    (archived? height r).bind (·.quorums.obligations) =
      if neededByVotes height = false ∧ height % archiveInterval ≠ 0 then none
      else r.quorums.obligations := by
  unfold archived?
  by_cases hneeded : neededByVotes height = true
  · rw [if_pos hneeded, if_neg (by simp [hneeded])]
    rfl
  · by_cases hsample : height % archiveInterval = 0
    · rw [if_neg hneeded, if_pos hsample, if_neg (by simp [hsample])]
      rfl
    · rw [if_neg hneeded, if_neg hsample, if_pos ⟨by simpa using hneeded, hsample⟩]
      rfl

/-- Going back to a recent registry keeps what lies below it, among the recent ones and in the
archive. -/
theorem rewind_of_recent {h : History} {height : Nat} {r : Registry}
    (hr : fullAt? h.recent height = some r) :
    h.rewind height =
      (.restored r, { h with recent := h.recent.filter fun k _ => decide (k < height) }) := by
  unfold rewind
  rw [hr]

/-- After going back to a recent registry the quorums of it and of all heights below are on
record, but for those let go by the time of the old head. -/
theorem Holds.obligations?_rewind {h : History} {published : Nat → Option Registry} {top : Nat}
    (hh : h.Holds published top) {below : Nat} {r : Registry}
    (hr : fullAt? h.recent below = some r) (hheight : r.height = below) {height : Nat}
    (hlow : height ≤ below) :
    (HistoryView.of r (h.rewind below).2).obligations? height =
      if LetGo top height then none else (published height).bind (·.quorums.obligations) := by
  have hget := (LiveRegistry.fullAt?_eq_some hr).1
  rw [hh.recent] at hget
  split at hget
  · rename_i hbelow
    rw [rewind_of_recent hr, HistoryView.obligations?_of]
    by_cases heq : r.height = height
    · have hkept : ¬ LetGo top height := fun hgone => by
        have := hgone.lt
        have hmany : 1 < recentBlocks := by decide
        omega
      rw [if_pos heq, if_neg hkept, ← heq, hheight, hget]
      rfl
    · have hrecent : (h.recent.filter fun k _ => decide (k < below)).get? height =
          h.recent.get? height := by
        rw [SortedMap.get?_filter]
        cases h.recent.get? height <;> simp [Option.filter]
        omega
      rw [if_neg heq, at?, hrecent, hh.recent, hh.archive]
      -- A height is a recent one or, beyond the limit, archived as far as it ever will be.
      have hfloor : cullHeight top = top - recentBlocks := rfl
      by_cases hold : height ≤ cullHeight top
      · rw [if_neg (by omega), if_pos (by omega), Option.none_or]
        cases published height with
        | none => exact (ite_self none).symm
        | some p =>
            have hgone : LetGo top height ↔
                neededByVotes height = false ∧ height % archiveInterval ≠ 0 := and_iff_right hold
            rw [Option.bind_some, obligations_archived?, Option.bind_some]
            simp only [hgone]
      · have hkept : ¬ LetGo top height := fun hgone => hold hgone.1
        rw [if_pos (by omega), if_neg (by omega), if_neg hkept, Option.or_none]
  · cases hget

end History

namespace LiveRegistry

section Reorganisations

variable {suite : CryptoSuite} {feed : Feed} {l m : LiveRegistry} {heads heads' : List Registry}
  {s : Surroundings} {reader : ChainReader} {top : Nat}

/-! ## One chain, one sequence of heads -/

/-- Two registries that follow one chain publish the same heads, as far as both have come. -/
theorem OnCourse.headAt_congr (h : OnCourse suite feed l heads) (h' : OnCourse suite feed m heads')
    (hsettings : m.settings = l.settings) (hchain : feed.IsChain l.settings.startHeight)
    (hshows : reader.Shows feed top) {height : Nat} (hlow : height < top)
    (hl : height ≤ l.head.height) (hm : height ≤ m.head.height) :
    headAt heads' height = headAt heads height := by
  -- Over the heights: a head is made of the one below by the one block that the chain has there,
  -- and its votes are counted by the quorums of heads that are the same already.
  induction height using Nat.strongRecOn with
  | ind height ih =>
    rcases Nat.lt_trichotomy height l.settings.startHeight with hlt | rfl | hgt
    · rw [h.headAt_eq_none (Or.inl hlt), h'.headAt_eq_none (Or.inl (by rw [hsettings]; exact hlt))]
    · have hfirst := h'.first
      rw [hsettings] at hfirst
      rw [hfirst, h.first]
    · obtain ⟨below, rfl⟩ : ∃ below, height = below + 1 := ⟨height - 1, by omega⟩
      obtain ⟨r, hr⟩ := h.every below (by omega) (by omega)
      obtain ⟨next, hnext⟩ := h.every (below + 1) (by omega) hl
      obtain ⟨next', hnext'⟩ := h'.every (below + 1) (by rw [hsettings]; omega) hm
      have hr' : headAt heads' below = some r := by
        rw [ih below (by omega) (by omega) (by omega) (by omega), hr]
      obtain ⟨block, txs, outcome, hfed, hheight, -, hagain⟩ :=
        (h.leads below r next hr hnext).apply_again hchain
          (NetworkRules.stakingLockBlocks_pos l.settings.network)
      have hrheight := (mem_of_headAt hr).2
      cases h'.leads below r next' hr' hnext' with
      | @block ctx' block' txs' top' _ _ outcome' rules_eq suite_eq shows' below' recalls' fed' _
          applied' =>
          have hheight' := Registry.height_before_apply applied'
          have hsame : (block', txs') = (block, txs) :=
            hshows.eq_of_height fed' hfed (by dsimp only; omega) (by dsimp only; omega)
          cases hsame
          have happlied := hagain ctx' top' (by rw [rules_eq]; unfold rules; rw [hsettings])
            suite_eq shows' below' (recalls'.congr fun k hk => by
              rw [quorumAt, quorumAt, ih k (by omega) (by omega) (by omega) (by omega)])
          rw [applied'] at happlied
          cases happlied
          rw [hnext, hnext']

/-! ## Going back and on -/

/-- A recent registry is the head that was published at its height, less than `recentBlocks`
below the head. -/
theorem OnCourse.published_of_recent (h : OnCourse suite feed l heads) {height : Nat}
    {r : Registry} (hr : l.history.recent.get? height = some r) :
    headAt heads height = some r ∧ height < l.head.height ∧
      l.head.height < height + recentBlocks := by
  have hmany : 1 < recentBlocks := by decide
  rw [h.tiers.recent] at hr
  split at hr
  · exact ⟨hr, by omega, by omega⟩
  · cases hr

/-- Going back to a recent height succeeds, with the head published there. Of the quorums up to
it all are on record but those of the heights let go. -/
theorem OnCourse.detach_to_recent (h : OnCourse suite feed l heads) {below : Nat} {r : Registry}
    (hr : l.history.recent.get? below = some r) :
    ∃ l', l.detach s (below + 1) = (.ok (), l') ∧ l'.settings = l.settings ∧ l'.head = r ∧
      ∀ height, height ≤ below → l'.view.obligations? height =
        if History.LetGo l.head.height height then none else quorumAt heads height := by
  obtain ⟨hpublished, -, -⟩ := h.published_of_recent hr
  obtain ⟨hmem, hheight⟩ := mem_of_headAt hpublished
  have hfull : History.fullAt? l.history.recent below = some r := by
    rw [History.fullAt?, hr, Option.filter_some, h.full r hmem]
    rfl
  refine ⟨{ l with head := r, history := (l.history.rewind below).2 }, ?_, rfl, rfl,
    fun height hle => h.tiers.obligations?_rewind hfull hheight hle⟩
  unfold detach
  rw [Nat.add_sub_cancel, History.rewind_of_recent hfull]

/-- A reorganisation leaves no trace but for quorums let go. One registry has followed a chain
and goes back to a height that is still recent when the blocks above it are dropped; another has
followed the chain up to that height only. They have the same head then, and of the quorums that
votes may name the second recalls all, and the first all but those let go. From then on both
answer all blocks alike, in any surroundings, until a block carries a state change on a height let
go, with votes that the quorum of that height has cast. No vote can name a height let go when at
most `recentBlocks - voteLifetime` blocks were dropped: both answer all blocks alike then. -/
theorem Follows.reorg_traceless_unless_lost (h : Follows suite feed l heads)
    (h' : Follows suite feed m heads') (hsettings : m.settings = l.settings)
    (hchain : feed.IsChain l.settings.startHeight) {height : Nat}
    (hrecent : (l.history.recent.get? (height - 1)).isSome) (hbelow : m.head.height + 1 = height)
    (hshows : s.chain.Shows feed height) :
    ∃ l', l.detach s height = (.ok (), l') ∧ l'.head = m.head ∧
      m.view.Recalls (quorumAt heads) height ∧
      (∀ k, k < height → l'.view.obligations? k =
        if History.LetGo l.head.height k then none else quorumAt heads k) ∧
      (l.head.height + 1 ≤ height + (recentBlocks - voteLifetime) →
        ∀ feedings, l'.answers feedings = m.answers feedings) ∧
      ∀ feedings, (∀ f ∈ feedings,
          ¬ f.RestsOn (History.LetGo l.head.height) (quorumAt heads)) →
        l'.answers feedings = m.answers feedings := by
  subst hbelow
  rw [Nat.add_sub_cancel] at hrecent
  obtain ⟨r, hr⟩ := Option.isSome_iff_exists.1 hrecent
  have hcourse := h.onCourse
  have hcourse' := h'.onCourse
  obtain ⟨hpublished, hlow, hnear⟩ := hcourse.published_of_recent hr
  obtain ⟨l', hdetach, hsame, hhead, hrecords⟩ := hcourse.detach_to_recent (s := s) hr
  have hheads : ∀ k, k ≤ m.head.height → headAt heads' k = headAt heads k := fun k hk =>
    hcourse.headAt_congr hcourse' hsettings hchain hshows (by omega) (by omega) hk
  have hhead' : l'.head = m.head := by
    have hlast := hcourse'.last
    rw [hheads _ (Nat.le_refl _), hpublished] at hlast
    rw [hhead]
    exact Option.some.inj hlast
  have hrecalls : m.view.Recalls (quorumAt heads) (m.head.height + 1) :=
    hcourse'.recalls.congr fun k hk => by
      rw [quorumAt, quorumAt, hheads k (by omega)]
  refine ⟨l', hdetach, hhead', hrecalls, fun k hk => hrecords k (by omega), ?_, ?_⟩
  · intro hshallow feedings
    have hrecalls' : l'.view.Recalls (quorumAt heads) (m.head.height + 1) := by
      refine ⟨rfl, fun k hk hlive => ?_⟩
      rw [hrecords k (by omega), if_neg (History.not_letGo_of_shallow hshallow hlive)]
    have hstep := inStep_of_recalls (hsame.trans hsettings.symm) hhead' hrecalls hrecalls'
    refine hstep.answers_eq feedings ?_
    rintro f - ⟨tx, -, -, change, -, hlost, -⟩
    exact hlost
  · intro feedings hrests
    have hstep : InStep (History.LetGo l.head.height) (quorumAt heads) m l' := by
      refine ⟨hsame.trans hsettings.symm, hhead', fun k hgone => ?_, hrecalls, rfl,
        fun k hk _ => hrecords k (by omega)⟩
      have := hgone.lt
      omega
    exact hstep.answers_eq feedings hrests

end Reorganisations

/-- Three plain blocks on the fake chain. The last two are dropped, and a registry that took both
and one that took neither go on with another block. -/
theorem Follows.reorg_traceless_unless_lost_after_three_blocks :
    ∃ l heads m heads' s l', Follows .standard (.plain .v9 5 3) l heads ∧
      Follows .standard (.plain .v9 5 3) m heads' ∧ l.head.height = 7 ∧ m.head.height = 5 ∧
      l.detach s 6 = (.ok (), l') ∧ l'.head = m.head ∧
      l'.answers [⟨s, .plain 6 .v9, []⟩] = m.answers [⟨s, .plain 6 .v9, []⟩] ∧
      (m.answers [⟨s, .plain 6 .v9, []⟩]).map (·.2.height) = [6] := by
  let feed : Feed := .plain .v9 5 3
  have hfeed : feed.Consistent := ⟨by decide, by decide, by decide⟩
  have hchain : feed.IsChain 4 := ⟨by decide, by decide⟩
  let s (top : Nat) : Surroundings := ⟨.standard, feed.reader top, 0, none, none, 0⟩
  let l := start .early ∅ []
  let l₁ := (l.init (s 6)).2
  let l₂ := (l₁.addBlock (s 7) (.plain 6 .v9) [] none).2
  let l₃ := (l₂.addBlock (s 8) (.plain 7 .v9) [] none).2
  have h₁ : Follows .standard feed l₁ _ :=
    .init rfl rfl (feed.shows_reader hfeed 6) (done_of_toOption (by decide +kernel))
  have h₂ : Follows .standard feed l₂ _ :=
    .add h₁ (List.mem_map.2 ⟨6, by decide, rfl⟩) rfl (feed.shows_reader hfeed 7) (by decide)
      (done_of_toOption (by decide +kernel))
  have h₃ : Follows .standard feed l₃ _ :=
    .add h₂ (List.mem_map.2 ⟨7, by decide, rfl⟩) rfl (feed.shows_reader hfeed 8) (by decide)
      (done_of_toOption (by decide +kernel))
  have hstart : l₃.settings.startHeight = 4 := by decide +kernel
  have htop : l₃.head.height = 7 := by decide +kernel
  have hlow : l₁.head.height = 5 := by decide +kernel
  have hsettings : l₃.settings = l₁.settings :=
    (settings_addBlock l₂ _ _ _ _).trans (settings_addBlock l₁ _ _ _ _)
  rw [← hstart] at hchain
  obtain ⟨l', hdone, hhead, -, -, hshallow, -⟩ :=
    h₃.reorg_traceless_unless_lost h₁ (s := s 6) hsettings.symm hchain (by decide +kernel)
      (by rw [hlow]) (feed.shows_reader hfeed 6)
  refine ⟨l₃, _, l₁, _, s 6, l', h₃, h₁, htop, hlow, hdone, hhead, hshallow ?_ _, ?_⟩
  · rw [htop]
    decide
  · decide +kernel

end LiveRegistry

end StakeRegistry
