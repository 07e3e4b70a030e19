import Mathlib.Data.List.Perm.Subperm
import StakeRegistry.Proofs.History.Tiers
import StakeRegistry.History.View

/-!
# Ageing

A registry that is published stays among the recent ones for some blocks. Then its quorums join
the old ones, and if its height is one that is archived, it or what is needed of it is archived.
Old quorums lie in the order of their heights (`History.Ordered`), which halving relies on, and
while they are all kept, every height since the first one published is in one of the three tiers
(`History.Aged`). Main statements:

* `Ordered.push`: a block keeps the tiers in order, however many old quorums are kept;
* `Aged.push`: a block keeps what the tiers hold exact;
* `oldQuorums?_of_mem`: in an ordered history, old quorums are found.
-/

set_option autoImplicit false

namespace StakeRegistry

/-- The quorums of a registry that is found are found. -/
theorem HistoryView.quorums?_of_state? {view : HistoryView} {height : Nat} {r : Registry}
    (hr : view.state? height = some r) (includeOld : Bool) :
    view.quorums? height includeOld = some r.quorums := by
  unfold quorums?
  rw [hr]

namespace History

/-! ## Old quorums in order -/

/-- Where heights ascend, those below a height come first. -/
theorem holdsBelow_of_ascending {l : List QuorumsAt}
    (hascending : (l.map (·.height)).Pairwise (· < ·)) {i : Nat} (hi : i < l.length) :
    HoldsBelow (fun e : QuorumsAt => decide (e.height < l[i].height)) l i := by
  have hlt : ∀ {a b : Nat} (ha : a < l.length) (hb : b < l.length), a < b →
      l[a].height < l[b].height := by
    intro a b ha hb hab
    rw [List.pairwise_map] at hascending
    exact List.pairwise_iff_getElem.1 hascending a b ha hb hab
  intro j
  by_cases hj : j < l.length
  · rw [List.getElem?_eq_getElem hj, Option.any_some, decide_eq_true_eq]
    constructor
    · intro hless
      rcases Nat.lt_trichotomy j i with hji | rfl | hij
      · exact hji
      · exact absurd hless (Nat.lt_irrefl _)
      · exact absurd hless (Nat.lt_asymm (hlt hi hj hij))
    · exact hlt hj hi
  · rw [List.getElem?_eq_none (Nat.le_of_not_lt hj)]
    exact iff_of_false Bool.false_ne_true fun hji => hj (Nat.lt_trans hji hi)

/-- There are no more ascending heights than lie below a bound. -/
theorem length_le_of_ascending {l : List QuorumsAt} {top : Nat}
    (hascending : (l.map (·.height)).Pairwise (· < ·)) (hbelow : ∀ e ∈ l, e.height < top) :
    l.length ≤ top := by
  have hnodup : (l.map (·.height)).Nodup := hascending.imp Nat.ne_of_lt
  have hsubset : l.map (·.height) ⊆ List.range top := by
    intro k hk
    obtain ⟨e, he, rfl⟩ := List.mem_map.1 hk
    exact List.mem_range.2 (hbelow e he)
  have hlength := (List.subperm_of_subset hnodup hsubset).length_le
  rwa [List.length_map, List.length_range] at hlength

/-- Old quorums in the order of their heights are found. -/
theorem oldQuorums?_of_mem {h : History}
    (hascending : (h.old.toList.map (·.height)).Pairwise (· < ·)) {height : Nat}
    {quorums : Quorums} (hmem : ⟨height, quorums⟩ ∈ h.old.toList) :
    h.oldQuorums? height = some quorums := by
  obtain ⟨i, hi, heq⟩ := List.getElem_of_mem hmem
  have hbelow := holdsBelow_of_ascending hascending hi
  rw [heq] at hbelow
  unfold oldQuorums?
  rw [Ring.countLeading_eq hbelow]
  dsimp only
  rw [List.getElem?_eq_getElem hi, heq]
  simp [Option.filter]

/-! ## Retiring registries -/

theorem oldLimit_retire (h : History) (height : Nat) (r : Registry) :
    (h.retire height r).oldLimit = h.oldLimit := by
  unfold retire
  dsimp only
  split <;> split <;> rfl

theorem old_retire (h : History) (height : Nat) (r : Registry) :
    (h.retire height r).old.toList =
      h.old.toList ++ if 0 < h.oldLimit then [⟨height, r.quorums⟩] else [] := by
  unfold retire
  dsimp only
  split <;> split <;> simp_all

/-- The quorums of the registries join the old ones, if any are kept. -/
theorem old_foldl_retire (l : List (Nat × Registry)) (h : History) :
    (l.foldl (fun h p => h.retire p.1 p.2) h).oldLimit = h.oldLimit ∧
      (l.foldl (fun h p => h.retire p.1 p.2) h).old.toList =
        h.old.toList ++
          if 0 < h.oldLimit then l.map fun p => ⟨p.1, p.2.quorums⟩ else [] := by
  induction l generalizing h with
  | nil => simp
  | cons p rest ih =>
      obtain ⟨hlimit, hold⟩ := ih (h.retire p.1 p.2)
      rw [oldLimit_retire] at hlimit hold
      refine ⟨hlimit, ?_⟩
      rw [List.foldl_cons, hold, old_retire]
      split <;> simp

/-- The old quorums that a block adds: those of the registries that leave the recent ones, if any
are kept. -/
def leaving (h : History) (blockHeight : Nat) : List QuorumsAt :=
  if 0 < h.oldLimit then
    (h.recent.filter fun height _ => decide (height ≤ cullHeight blockHeight)).toList.map fun p =>
      ⟨p.1, p.2.quorums⟩
  else []

theorem oldLimit_push (h : History) (blockHeight : Nat) (previous : Registry) :
    (h.push blockHeight previous).oldLimit = h.oldLimit := by
  unfold push
  exact (old_foldl_retire _ _).1

/-- Old quorums are added behind, and taken off the front where there are too many. -/
theorem old_push (h : History) (blockHeight : Nat) (previous : Registry) :
    (h.push blockHeight previous).old.toList = (h.old.toList ++ h.leaving blockHeight).drop
      ((h.old.toList ++ h.leaving blockHeight).length - h.oldLimit) := by
  obtain ⟨hlimit, hold⟩ := old_foldl_retire
    (h.recent.filter fun height _ => decide (height ≤ cullHeight blockHeight)).toList
    { h with recent := h.recent.filter fun height _ => decide (cullHeight blockHeight < height) }
  unfold push
  dsimp only at hlimit hold ⊢
  rw [Ring.toList_drop, Ring.length, hlimit, hold]
  rfl

theorem mem_leaving {h : History} {blockHeight : Nat} {e : QuorumsAt}
    (he : e ∈ h.leaving blockHeight) :
    e.height ≤ cullHeight blockHeight ∧ ∃ r, h.recent.get? e.height = some r := by
  unfold leaving at he
  split at he
  · obtain ⟨⟨height, r⟩, hp, rfl⟩ := List.mem_map.1 he
    obtain ⟨hmem, hculled⟩ := List.mem_filter.1 hp
    exact ⟨by simpa using hculled, r, SortedMap.get?_eq_some_iff.2 hmem⟩
  · cases he

theorem mem_leaving_of_culled {h : History} {blockHeight height : Nat} {r : Registry}
    (hlimit : 0 < h.oldLimit) (hculled : height ≤ cullHeight blockHeight)
    (hr : h.recent.get? height = some r) : ⟨height, r.quorums⟩ ∈ h.leaving blockHeight := by
  unfold leaving
  rw [if_pos hlimit]
  refine List.mem_map.2 ⟨(height, r), List.mem_filter.2 ⟨?_, by simpa using hculled⟩, rfl⟩
  exact SortedMap.get?_eq_some_iff.1 hr

theorem ascending_leaving (h : History) (blockHeight : Nat) :
    ((h.leaving blockHeight).map (·.height)).Pairwise (· < ·) := by
  unfold leaving
  split
  · rw [List.map_map]
    refine List.pairwise_map.2 ((SortedMap.ascending _).imp fun hlt => ?_)
    exact Nat.compare_eq_lt.1 hlt
  · exact .nil

/-! ## Histories in order -/

/-- Registries are kept under their heights, and old quorums in the order of theirs, below the
recent registries. All of this lies below a height. -/
structure Ordered (h : History) (top : Nat) : Prop where
  recent : ∀ k r, h.recent.get? k = some r → r.height = k ∧ k < top
  archive : ∀ k r, h.archive.get? k = some r → r.height = k ∧ k < top
  ascending : (h.old.toList.map (·.height)).Pairwise (· < ·)
  old : ∀ e ∈ h.old.toList, e.height < top ∧ ∀ k r, h.recent.get? k = some r → e.height < k

theorem ordered_new (setting top : Nat) : (History.new setting).Ordered top := by
  refine ⟨fun k r hr => ?_, fun k r hr => ?_, .nil, fun e he => ?_⟩
  · cases hr
  · cases hr
  · cases he

namespace Ordered

variable {h : History} {top : Nat} {previous : Registry}

/-- What leaves was recent, and so lies above all old quorums. -/
theorem ascending_append (hh : h.Ordered top) (blockHeight : Nat) :
    ((h.old.toList ++ h.leaving blockHeight).map (·.height)).Pairwise (· < ·) := by
  rw [List.map_append]
  refine List.pairwise_append.2 ⟨hh.ascending, ascending_leaving h _, fun a ha b hb => ?_⟩
  obtain ⟨e, he, rfl⟩ := List.mem_map.1 ha
  obtain ⟨e', he', rfl⟩ := List.mem_map.1 hb
  obtain ⟨-, r, hr⟩ := mem_leaving he'
  exact (hh.old e he).2 _ r hr

/-- While the limit lies above the height, no old quorums are given up. -/
theorem old_push_of_le (hh : h.Ordered top) (hlimit : top ≤ h.oldLimit) (blockHeight : Nat)
    (previous : Registry) :
    (h.push blockHeight previous).old.toList = h.old.toList ++ h.leaving blockHeight := by
  have hlength : (h.old.toList ++ h.leaving blockHeight).length ≤ top := by
    refine length_le_of_ascending (hh.ascending_append blockHeight) fun e he => ?_
    rcases List.mem_append.1 he with he | he
    · exact (hh.old e he).1
    · obtain ⟨-, r, hr⟩ := mem_leaving he
      exact (hh.recent _ r hr).2
  rw [old_push, Nat.sub_eq_zero_of_le (Nat.le_trans hlength hlimit), List.drop_zero]

/-- A block keeps the tiers in order, however many old quorums are kept. -/
theorem push (hh : h.Ordered top) (hprevious : previous.height = top) :
    (h.push (top + 1) previous).Ordered (top + 1) := by
  have hold : ∀ e ∈ (h.push (top + 1) previous).old.toList,
      e ∈ h.old.toList ∨ e ∈ h.leaving (top + 1) := by
    intro e he
    rw [old_push] at he
    exact List.mem_append.1 (List.mem_of_mem_drop he)
  constructor
  case recent =>
    intro k r hr
    rcases recent_push_cases h _ _ hr with ⟨hk, rfl⟩ | ⟨-, hr⟩
    · exact ⟨hk.symm, by omega⟩
    · have hkept := hh.recent k r hr
      exact ⟨hkept.1, Nat.lt_succ_of_lt hkept.2⟩
  case archive =>
    intro k r hr
    rcases archive_push_cases h _ _ hr with ⟨-, r', hr', harchived⟩ | hr
    · have hleft := hh.recent k r' hr'
      exact ⟨(height_of_archived? harchived).trans hleft.1, Nat.lt_succ_of_lt hleft.2⟩
    · have hkept := hh.archive k r hr
      exact ⟨hkept.1, Nat.lt_succ_of_lt hkept.2⟩
  case ascending =>
    rw [old_push]
    exact (hh.ascending_append _).sublist ((List.drop_sublist _ _).map _)
  case old =>
    intro e he
    -- What is old by now lies below the old head, and below what stays recent.
    have hbelow : e.height < top ∧ ∀ k r, cullHeight (top + 1) < k →
        h.recent.get? k = some r → e.height < k := by
      rcases hold e he with he | he
      · exact ⟨(hh.old e he).1, fun k r _ hr => (hh.old e he).2 k r hr⟩
      · obtain ⟨hculled, r, hr⟩ := mem_leaving he
        exact ⟨(hh.recent _ r hr).2, fun k _ hk _ => Nat.lt_of_le_of_lt hculled hk⟩
    refine ⟨Nat.lt_succ_of_lt hbelow.1, fun k r hr => ?_⟩
    rcases recent_push_cases h _ _ hr with ⟨hk, -⟩ | ⟨hkept, hr⟩
    · rw [hk, hprevious]
      exact hbelow.1
    · exact hbelow.2 k r hkept hr

end Ordered

/-! ## What the tiers hold -/

/-- The history without the tiers' registries below a height. -/
def since (h : History) (first : Nat) : History :=
  { h with
    recent := h.recent.filter fun k _ => decide (first ≤ k)
    archive := h.archive.filter fun k _ => decide (first ≤ k) }

section Since

variable (h : History) (first k : Nat)

theorem recent_since : (h.since first).recent.get? k =
    if first ≤ k then h.recent.get? k else none := by
  unfold since
  dsimp only
  rw [SortedMap.get?_filter]
  cases h.recent.get? k <;> simp [Option.filter]

theorem archive_since : (h.since first).archive.get? k =
    if first ≤ k then h.archive.get? k else none := by
  unfold since
  dsimp only
  rw [SortedMap.get?_filter]
  cases h.archive.get? k <;> simp [Option.filter]

end Since

/-- From a first height on the tiers hold what was published: the recent registries, what is
archived of the others, and the quorums of all of these while none had to be given up. -/
structure Aged (h : History) (published : Nat → Option Registry) (first top : Nat) : Prop where
  ordered : h.Ordered top
  tiers : (h.since first).Holds published top
  old : top ≤ h.oldLimit → ∀ k r, first ≤ k → k + 1 < top → k ≤ top - recentBlocks →
    published k = some r → ⟨k, r.quorums⟩ ∈ h.old.toList

namespace Aged

variable {h : History} {published published' : Nat → Option Registry} {first top : Nat}

/-- A history in order, with nothing published yet from the first height on. -/
theorem begin (hh : h.Ordered first) (hnone : ∀ k, k < first → published k = none) :
    h.Aged published first first := by
  refine ⟨hh, .ofEmpty ?_ ?_ hnone, fun _ k r hk hlow => by omega⟩
  · refine SortedMap.ext_get? fun k => ?_
    rw [recent_since, SortedMap.get?_empty]
    split
    · exact Option.eq_none_iff_forall_not_mem.2 fun r hr => by
        have := hh.recent k r hr
        omega
    · rfl
  · refine SortedMap.ext_get? fun k => ?_
    rw [archive_since, SortedMap.get?_empty]
    split
    · exact Option.eq_none_iff_forall_not_mem.2 fun r hr => by
        have := hh.archive k r hr
        omega
    · rfl

/-- Only what was published below the top matters. -/
theorem congr (hh : h.Aged published first top)
    (hsame : ∀ k, k < top → published' k = published k) : h.Aged published' first top := by
  refine ⟨hh.ordered, hh.tiers.congr hsame, fun hlimit k r hk hbelow hculled hr => ?_⟩
  rw [hsame k (by omega)] at hr
  exact hh.old hlimit k r hk hbelow hculled hr

theorem recent_eq (hh : h.Aged published first top) {k : Nat} (hk : first ≤ k) :
    h.recent.get? k =
      if k < top ∧ (top - recentBlocks < k ∨ k + 1 = top) then published k else none := by
  rw [← hh.tiers.recent k, recent_since, if_pos hk]

theorem archive_eq (hh : h.Aged published first top) {k : Nat} (hk : first ≤ k) :
    h.archive.get? k =
      if k + 1 < top ∧ k ≤ top - recentBlocks then (published k).bind (archived? k) else none := by
  rw [← hh.tiers.archive k, archive_since, if_pos hk]

/-- A block keeps what the tiers hold exact. -/
theorem push (hh : h.Aged published first top) {previous : Registry}
    (hprevious : previous.height = top) (hpublished : published top = some previous)
    (hfirst : first ≤ top) : (h.push (top + 1) previous).Aged published first (top + 1) := by
  have hfloor : cullHeight (top + 1) = top + 1 - recentBlocks := rfl
  refine ⟨hh.ordered.push hprevious, ?_, fun hlimit k r hk hbelow hculled hr => ?_⟩
  · refine (hh.tiers.push hprevious hpublished).of_lookups (fun k => ?_) fun k => ?_
    · rw [recent_since, recent_push, recent_push, recent_since]
      split
      · rfl
      · rw [if_neg (by omega)]
        split <;> rfl
    · rw [archive_since, archive_push, archive_push, archive_since, recent_since]
      split <;> simp
  · rw [oldLimit_push] at hlimit
    rw [hh.ordered.old_push_of_le (by omega)]
    -- It has been old before, or leaves with this block.
    by_cases hearlier : k + 1 < top ∧ k ≤ top - recentBlocks
    · exact List.mem_append_left _ (hh.old (by omega) k r hk hearlier.1 hearlier.2 hr)
    · refine List.mem_append_right _ (mem_leaving_of_culled (by omega) hculled ?_)
      rw [hh.recent_eq hk, if_pos (by omega), hr]

end Aged

/-! ## What is found -/

/-- What is archived, in whatever form: every ten-thousandth registry and the sixty-five before
it. -/
theorem isSome_archived?_iff (height : Nat) (r : Registry) : (archived? height r).isSome = true ↔
    height % 10000 = 0 ∨ 9935 ≤ height % 10000 := by
  have hneeded : neededByVotes height = true ↔ 9935 ≤ height % 10000 := by
    unfold neededByVotes nextArchived archiveInterval voteLifetime voteBuffer
    rw [decide_eq_true_eq]
    omega
  unfold archived?
  by_cases h : neededByVotes height = true
  · simp [h, hneeded.1 h]
  · rw [if_neg h]
    rw [hneeded] at h
    unfold archiveInterval
    split
    · simp [*]
    · simp [*]

namespace Aged

variable {h : History} {published : Nat → Option Registry} {first k : Nat} {head r : Registry}

theorem state?_eq (hlow : k < head.height) :
    (HistoryView.of head h).state? k = (h.recent.get? k).or (h.archive.get? k) := by
  unfold HistoryView.state? HistoryView.of
  dsimp only
  rw [if_neg (Nat.ne_of_gt hlow)]
  rfl

/-- A registry that is recent is found in full. -/
theorem state?_of_recent (hh : h.Aged published first head.height) (hk : first ≤ k)
    (hlow : k < head.height) (hr : published k = some r)
    (hrecent : head.height - recentBlocks < k ∨ k + 1 = head.height) :
    (HistoryView.of head h).state? k = some r := by
  rw [state?_eq hlow, hh.recent_eq hk, if_pos ⟨hlow, hrecent⟩, hr]
  rfl

/-- Of one that has left, what is archived. -/
theorem state?_of_culled (hh : h.Aged published first head.height) (hk : first ≤ k)
    (hlow : k + 1 < head.height) (hr : published k = some r)
    (hculled : k ≤ head.height - recentBlocks) :
    (HistoryView.of head h).state? k = archived? k r := by
  rw [state?_eq (by omega), hh.recent_eq hk, hh.archive_eq hk, if_neg (by omega),
    if_pos ⟨hlow, hculled⟩, hr]
  rfl

/-- The quorums of a registry that is recent or archived are found. -/
theorem quorums?_of_kept (hh : h.Aged published first head.height) (hk : first ≤ k)
    (hlow : k < head.height) (hr : published k = some r)
    (hkept : head.height - recentBlocks < k ∨ k % 10000 = 0 ∨ 9935 ≤ k % 10000)
    (includeOld : Bool) :
    (HistoryView.of head h).quorums? k includeOld = some r.quorums := by
  by_cases hrecent : head.height - recentBlocks < k ∨ k + 1 = head.height
  · exact HistoryView.quorums?_of_state? (hh.state?_of_recent hk hlow hr hrecent) includeOld
  · have hstate := hh.state?_of_culled hk (by omega) hr (by omega)
    have hsome := (isSome_archived?_iff k r).2 (by omega)
    obtain ⟨kept, hkept⟩ := Option.isSome_iff_exists.1 hsome
    rw [← quorums_of_archived? hkept]
    exact HistoryView.quorums?_of_state? (hstate.trans hkept) includeOld

/-- While no old quorums have to be given up, those of every height are found. -/
theorem quorums?_of_limit (hh : h.Aged published first head.height)
    (hlimit : head.height ≤ h.oldLimit) (hk : first ≤ k) (hlow : k < head.height)
    (hr : published k = some r) :
    (HistoryView.of head h).quorums? k true = some r.quorums := by
  by_cases hkept : head.height - recentBlocks < k ∨ k % 10000 = 0 ∨ 9935 ≤ k % 10000
  · exact hh.quorums?_of_kept hk hlow hr hkept true
  · by_cases hlast : k + 1 = head.height
    · exact HistoryView.quorums?_of_state? (hh.state?_of_recent hk hlow hr (.inr hlast)) true
    · have hstate := hh.state?_of_culled hk (by omega) hr (by omega)
      have hnone : archived? k r = none := by
        have hnot := mt (isSome_archived?_iff k r).1 (by omega)
        simpa using hnot
      unfold HistoryView.quorums?
      rw [hstate, hnone]
      exact oldQuorums?_of_mem hh.ordered.ascending
        (hh.old hlimit k r hk (by omega) (by omega) hr)

end Aged

end History

end StakeRegistry
