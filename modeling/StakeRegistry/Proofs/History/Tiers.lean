import StakeRegistry.History.Basic

/-!
# What the tiers of history hold

The registry of a height is looked up among the recent ones, then in the archive
(`History.at?`). Adding a block moves registries from the first to the second and leaves the
look-ups of all heights within the last `recentBlocks` as they are (`at?_push`). When every
block on top of a first registry was added, the two tiers are known exactly
(`History.Holds`, `Holds.push`).
-/

set_option autoImplicit false

namespace StakeRegistry

namespace History

/-- The registry of a height, in whatever form it is kept. -/
def at? (h : History) (height : Nat) : Option Registry :=
  (h.recent.get? height).or (h.archive.get? height)

/-! ## Retiring registries -/

theorem recent_retire (h : History) (height : Nat) (r : Registry) :
    (h.retire height r).recent = h.recent := by
  unfold retire
  dsimp only
  split <;> split <;> rfl

theorem archive_retire (h : History) (height : Nat) (r : Registry) (k : Nat) :
    (h.retire height r).archive.get? k =
      if k = height then (archived? height r).or (h.archive.get? k) else h.archive.get? k := by
  unfold retire
  dsimp only
  have hold : (if h.oldLimit > 0 then { h with old := h.old.push ⟨height, r.quorums⟩ } else h :
      History).archive = h.archive := by
    split <;> rfl
  cases archived? height r with
  | none =>
      dsimp only
      rw [hold]
      simp
  | some kept =>
      show ((if h.oldLimit > 0 then { h with old := h.old.push ⟨height, r.quorums⟩ } else h :
        History).archive.insert height kept).get? k = _
      rw [hold, SortedMap.get?_insert]
      simp

theorem recent_foldl_retire (l : List (Nat × Registry)) (h : History) :
    (l.foldl (fun h p => h.retire p.1 p.2) h).recent = h.recent := by
  induction l generalizing h with
  | nil => rfl
  | cons p rest ih => rw [List.foldl_cons, ih, recent_retire]

/-- The archive after several registries were retired: each in its archived form, if it has
one. -/
theorem archive_foldl_retire {l : List (Nat × Registry)}
    (hl : l.Pairwise fun a b => compare a.1 b.1 = .lt) (h : History) (k : Nat) :
    (l.foldl (fun h p => h.retire p.1 p.2) h).archive.get? k =
      ((SortedMap.lookup k l).bind (archived? k)).or (h.archive.get? k) := by
  induction l generalizing h with
  | nil => rfl
  | cons p rest ih =>
      obtain ⟨height, r⟩ := p
      have hrest := List.pairwise_cons.1 hl
      rw [List.foldl_cons, ih hrest.2, archive_retire]
      -- A height occurs once, so the first registry of a height is the last.
      by_cases hk : k = height
      · subst hk
        have hnone : SortedMap.lookup k rest = none := by
          refine SortedMap.lookup_eq_none fun q hq heq => ?_
          have hlt := hrest.1 q hq
          rw [heq] at hlt
          cases hlt
        simp [SortedMap.lookup, hnone]
      · have hne : compare k height ≠ .eq := fun heq => hk (Std.LawfulEqCmp.eq_of_compare heq)
        simp [SortedMap.lookup, hne, hk]

theorem alternatives_foldl_retire (l : List (Nat × Registry)) (h : History) :
    (l.foldl (fun h p => h.retire p.1 p.2) h).alternatives = h.alternatives := by
  induction l generalizing h with
  | nil => rfl
  | cons p rest ih =>
      rw [List.foldl_cons, ih]
      unfold retire
      dsimp only
      split <;> split <;> rfl

/-! ## Adding a block -/

section Push

variable (h : History) (blockHeight : Nat) (previous : Registry)

theorem recent_push (k : Nat) :
    (h.push blockHeight previous).recent.get? k =
      if k = previous.height then some previous
      else if cullHeight blockHeight < k then h.recent.get? k else none := by
  unfold push
  dsimp only
  rw [recent_foldl_retire, SortedMap.get?_insert]
  dsimp only
  rw [SortedMap.get?_filter]
  congr 1
  cases h.recent.get? k <;> simp [Option.filter]

/-- The registries that leave the recent ones go to the archive in their archived form. -/
theorem archive_push (k : Nat) :
    (h.push blockHeight previous).archive.get? k =
      if k ≤ cullHeight blockHeight then
        ((h.recent.get? k).bind (archived? k)).or (h.archive.get? k)
      else h.archive.get? k := by
  unfold push
  dsimp only
  rw [archive_foldl_retire (SortedMap.ascending _)]
  show (((h.recent.filter fun height _ => decide (height ≤ cullHeight blockHeight)).get? k).bind
    (archived? k)).or (h.archive.get? k) = _
  rw [SortedMap.get?_filter]
  by_cases hk : k ≤ cullHeight blockHeight
  · simp only [hk, if_true]
    cases h.recent.get? k <;> simp [Option.filter]
  · simp only [hk, if_false]
    cases h.recent.get? k <;> simp [Option.filter]

/-- After a block a recent registry is the old head, or was recent and stays. -/
theorem recent_push_cases {k : Nat} {r : Registry}
    (hr : (h.push blockHeight previous).recent.get? k = some r) :
    (k = previous.height ∧ r = previous) ∨
      (cullHeight blockHeight < k ∧ h.recent.get? k = some r) := by
  rw [recent_push] at hr
  split at hr
  · exact .inl ⟨‹_›, (Option.some.inj hr).symm⟩
  · split at hr
    · exact .inr ⟨‹_›, hr⟩
    · cases hr

/-- After a block an archived registry is the archived form of a recent one that leaves, or was
archived before. -/
theorem archive_push_cases {k : Nat} {r : Registry}
    (hr : (h.push blockHeight previous).archive.get? k = some r) :
    (k ≤ cullHeight blockHeight ∧
        ∃ r', h.recent.get? k = some r' ∧ archived? k r' = some r) ∨
      h.archive.get? k = some r := by
  rw [archive_push] at hr
  split at hr
  · rcases Option.or_eq_some_iff.1 hr with hr | ⟨-, hr⟩
    · exact .inl ⟨‹_›, Option.bind_eq_some_iff.1 hr⟩
    · exact .inr hr
  · exact .inr hr

/-- A block of the canonical chain brings no registry of another branch. -/
theorem alternatives_push_eq_none {hash : Hash} (hnone : h.alternatives.get? hash = none) :
    (h.push blockHeight previous).alternatives.get? hash = none := by
  unfold push
  dsimp only
  rw [alternatives_foldl_retire, SortedMap.get?_filter, hnone]
  rfl

/-- The registry of height zero is archived in full. -/
theorem archived?_zero (r : Registry) : archived? 0 r = some r := rfl

/-- A block leaves the look-ups of all heights that are not culled as they are, and that of
height zero. -/
theorem at?_push {k : Nat} (hprevious : k ≠ previous.height)
    (hkept : cullHeight blockHeight < k ∨ k = 0) :
    (h.push blockHeight previous).at? k = h.at? k := by
  unfold at?
  rw [recent_push, archive_push, if_neg hprevious]
  rcases hkept with hkept | rfl
  · rw [if_pos hkept, if_neg (by omega)]
  · rw [if_neg (by omega), if_pos (by omega)]
    cases h.recent.get? 0 with
    | none => rfl
    | some r => simp [archived?_zero]

theorem at?_push_previous : (h.push blockHeight previous).at? previous.height = some previous := by
  unfold at?
  rw [recent_push, if_pos rfl]
  rfl

end Push

/-! ## Quorums in the tiers -/

/-- The recent registries lie below a height, and so do those in the archive, which are no longer
among the recent ones. -/
structure Apart (h : History) (top : Nat) : Prop where
  recent : ∀ k r, h.recent.get? k = some r → k < top
  archive : ∀ k r, h.archive.get? k = some r → k < top ∧ h.recent.get? k = none

theorem apart_of_empty {h : History} (hrecent : h.recent = ∅) (harchive : h.archive = ∅)
    (top : Nat) : h.Apart top := by
  constructor
  · intro k r hr
    rw [hrecent] at hr
    cases hr
  · intro k r hr
    rw [harchive] at hr
    cases hr

/-- A registry is archived as it is, or with its quorums only. -/
theorem eq_of_archived? {height : Nat} {r kept : Registry} (h : archived? height r = some kept) :
    kept = r ∨ kept = r.toQuorumsOnly := by
  unfold archived? at h
  split at h
  · exact .inr (Option.some.inj h).symm
  · split at h
    · exact .inl (Option.some.inj h).symm
    · cases h

theorem quorums_of_archived? {height : Nat} {r kept : Registry}
    (h : archived? height r = some kept) : kept.quorums = r.quorums := by
  rcases eq_of_archived? h with rfl | rfl <;> rfl

theorem height_of_archived? {height : Nat} {r kept : Registry}
    (h : archived? height r = some kept) : kept.height = r.height := by
  rcases eq_of_archived? h with rfl | rfl <;> rfl

section Apart

variable {h : History} {top : Nat} {previous : Registry}

/-- The next block keeps the tiers apart. -/
theorem Apart.push (hh : h.Apart top) (hprevious : previous.height = top) :
    (h.push (top + 1) previous).Apart (top + 1) := by
  have hfloor : cullHeight (top + 1) = top + 1 - recentBlocks := rfl
  have hmany : 1 < recentBlocks := by decide
  constructor
  · intro k r hr
    rcases recent_push_cases h _ _ hr with ⟨hk, -⟩ | ⟨-, hr⟩
    · omega
    · exact Nat.lt_succ_of_lt (hh.recent k r hr)
  · intro k r hr
    -- What was archived already has left before; what is archived now leaves now.
    have hbelow : k < top ∧ (cullHeight (top + 1) < k → h.recent.get? k = none) := by
      rcases archive_push_cases h _ _ hr with ⟨hculled, r', hr', -⟩ | hr
      · exact ⟨hh.recent k r' hr', by omega⟩
      · exact ⟨(hh.archive k r hr).1, fun _ => (hh.archive k r hr).2⟩
    refine ⟨Nat.lt_succ_of_lt hbelow.1, ?_⟩
    rw [recent_push, if_neg (by omega)]
    split
    · exact hbelow.2 ‹_›
    · rfl

/-- A quorum found after the next block, at a height below the old head, was found before. -/
theorem Apart.quorums_at?_push (hh : h.Apart top) (hprevious : previous.height = top) {k : Nat}
    (hlow : k < top) {r : Registry} (hr : (h.push (top + 1) previous).at? k = some r) :
    ∃ r', h.at? k = some r' ∧ r.quorums = r'.quorums := by
  by_cases hkept : cullHeight (top + 1) < k
  · rw [at?_push _ _ _ (by omega) (Or.inl hkept)] at hr
    exact ⟨r, hr, rfl⟩
  · unfold at? at hr ⊢
    rw [recent_push, if_neg (by omega), if_neg hkept, Option.none_or, archive_push,
      if_pos (by omega)] at hr
    rcases Option.or_eq_some_iff.1 hr with hr | ⟨-, hr⟩
    · obtain ⟨r', hr', harchived⟩ := Option.bind_eq_some_iff.1 hr
      exact ⟨r', by rw [hr']; rfl, quorums_of_archived? harchived⟩
    · exact ⟨r, by rw [(hh.archive k r hr).2, hr]; rfl, rfl⟩

end Apart

/-! ## The tiers of an unbroken run -/

/-- The tiers after blocks up to height `top` were added one after the other: the registries
below that were published last are kept as recent ones, and the earlier ones are in the
archive, if they are archived. -/
structure Holds (h : History) (published : Nat → Option Registry) (top : Nat) : Prop where
  recent : ∀ k, h.recent.get? k =
    if k < top ∧ (top - recentBlocks < k ∨ k + 1 = top) then published k else none
  archive : ∀ k, h.archive.get? k =
    if k + 1 < top ∧ k ≤ top - recentBlocks then (published k).bind (archived? k) else none

namespace Holds

variable {h : History} {published published' : Nat → Option Registry} {top : Nat}

/-- An empty history holds what was published below the first registry. -/
theorem ofEmpty (hrecent : h.recent = ∅) (harchive : h.archive = ∅)
    (hnone : ∀ k, k < top → published k = none) : h.Holds published top := by
  constructor
  · intro k
    rw [hrecent]
    split
    · rename_i hk
      exact (hnone k hk.1).symm
    · rfl
  · intro k
    rw [harchive]
    split
    · rename_i hk
      rw [hnone k (by omega)]
      rfl
    · rfl

/-- Only what is found in the tiers matters. -/
theorem of_lookups {h' : History} (hh : h.Holds published top)
    (hrecent : ∀ k, h'.recent.get? k = h.recent.get? k)
    (harchive : ∀ k, h'.archive.get? k = h.archive.get? k) : h'.Holds published top :=
  ⟨fun k => (hrecent k).trans (hh.recent k), fun k => (harchive k).trans (hh.archive k)⟩

/-- Only what was published below the top matters. -/
theorem congr (hh : h.Holds published top)
    (hsame : ∀ k, k < top → published' k = published k) : h.Holds published' top := by
  constructor
  · intro k
    rw [hh.recent k]
    split
    · rename_i hk
      exact (hsame k hk.1).symm
    · rfl
  · intro k
    rw [hh.archive k]
    split
    · rename_i hk
      rw [hsame k (by omega)]
    · rfl

/-- The next block keeps the tiers exact. -/
theorem push (hh : h.Holds published top) {previous : Registry}
    (hprevious : previous.height = top) (hpublished : published top = some previous) :
    (h.push (top + 1) previous).Holds published (top + 1) := by
  have hfloor : cullHeight (top + 1) = top + 1 - recentBlocks := rfl
  constructor
  · intro k
    rw [recent_push, hh.recent k, hprevious, hfloor]
    -- The old head is kept, what reached the floor leaves, and the rest stays.
    by_cases hk : k = top
    · subst hk
      rw [if_pos rfl, if_pos (by omega), hpublished]
    · rw [if_neg hk]
      by_cases hkept : top + 1 - recentBlocks < k
      · rw [if_pos hkept]
        by_cases hbelow : k < top
        · rw [if_pos (by omega), if_pos (by omega)]
        · rw [if_neg (by omega), if_neg (by omega)]
      · rw [if_neg hkept, if_neg (by omega)]
  · intro k
    rw [archive_push, hh.archive k, hh.recent k, hfloor]
    -- The archive gains what left the recent ones just now, and loses nothing.
    by_cases hculled : k ≤ top + 1 - recentBlocks
    · rw [if_pos hculled]
      by_cases hbelow : k < top
      · rw [if_pos (show k + 1 < top + 1 ∧ k ≤ top + 1 - recentBlocks by omega)]
        by_cases hearlier : k + 1 < top ∧ k ≤ top - recentBlocks
        · rw [if_pos hearlier, if_neg (by omega)]
          rfl
        · rw [if_neg hearlier, if_pos (by omega), Option.or_none]
      · rw [if_neg (show ¬ (k + 1 < top + 1 ∧ k ≤ top + 1 - recentBlocks) by omega),
          if_neg (by omega), if_neg (by omega)]
        rfl
    · rw [if_neg hculled, if_neg (by omega), if_neg (by omega)]

end Holds

end History

end StakeRegistry
