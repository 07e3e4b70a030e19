import Mathlib.Data.List.DropRight
import StakeRegistry.Proofs.History.Ageing

/-!
# Going back and old quorums

Going back drops the recent registries above a height, or all of them when it goes back to the
archive. It never drops old quorums. From a recent registry this does no harm: everything that
has grown old lies below the recent registries (`History.Layered`, `Layered.rewind_to_recent`).
An archived registry lies among the old quorums, so those of the heights from there on are added
once more as blocks are applied again (`History.Regrown`), behind the ones that are there. Then
old quorums are out of order until as many have been added again as are kept at all
(`Regrown.ascends_iff`).
-/

set_option autoImplicit false

namespace StakeRegistry

/-! ## The end of a list -/

/-- Of ascending numbers the last one is the greatest. -/
theorem exists_last_of_ascending {l : List Nat} (hl : l.Pairwise (· < ·)) {k : Nat} (hk : k ∈ l) :
    ∃ front last, l = front ++ [last] ∧ k ≤ last := by
  rcases List.eq_nil_or_concat' l with rfl | ⟨front, last, rfl⟩
  · cases hk
  · refine ⟨front, last, rfl, ?_⟩
    rcases List.mem_append.1 hk with hk | hk
    · exact Nat.le_of_lt ((List.pairwise_append.1 hl).2.2 k hk last (List.mem_singleton.2 rfl))
    · exact Nat.le_of_eq (List.mem_singleton.1 hk)

/-- The last ones of a list to which something was added are found among the last ones of the
list and what was added. -/
theorem rtake_append_rtake {α : Type} (l m : List α) (n : Nat) :
    (l.rtake n ++ m).rtake n = (l ++ m).rtake n := by
  unfold List.rtake
  rw [← List.drop_append_of_le_length (Nat.sub_le _ _), List.drop_drop, List.length_drop,
    List.length_append]
  congr 1
  omega

/-- Numbers that begin again below ascending ones ascend at the end of the list exactly if the
end holds none of those, or nothing has begun again. -/
theorem ascending_rtake_append_range' {past : List Nat} {base limit count : Nat}
    (hpast : past.Pairwise (· < ·)) (hlength : past.length ≤ limit)
    (hover : ∃ k ∈ past, base ≤ k) :
    ((past ++ List.range' base count).rtake limit).Pairwise (· < ·) ↔
      (0 < count → limit ≤ count) := by
  obtain ⟨k, hk, hbase⟩ := hover
  obtain ⟨front, last, rfl, hlast⟩ := exists_last_of_ascending hpast hk
  unfold List.rtake
  rw [List.length_append, List.length_range']
  by_cases hall : 0 < count → limit ≤ count
  · refine iff_of_true ?_ hall
    rcases Nat.eq_zero_or_pos count with rfl | hcount
    · rw [List.range'_zero, List.append_nil]
      exact hpast.sublist (List.drop_sublist _ _)
    · have hgone : (front ++ [last]).length ≤ (front ++ [last]).length + count - limit := by
        have := hall hcount
        omega
      rw [List.drop_append, List.drop_of_length_le hgone, List.nil_append]
      exact List.Pairwise.sublist (List.drop_sublist _ _) List.pairwise_lt_range'
  · refine iff_of_false (fun hascending => ?_) hall
    rw [Classical.not_imp] at hall
    obtain ⟨hcount, hfew⟩ := hall
    -- The last one of the past is still there, and stands right before the first one added.
    rw [List.length_append, List.length_singleton] at hlength hascending
    rw [List.append_assoc, List.drop_append_of_le_length (by omega)] at hascending
    have hpair := (List.pairwise_append.1 (List.pairwise_append.1 hascending).2.1).2.2 last
      (List.mem_singleton.2 rfl) base (List.mem_range'_1.2 ⟨Nat.le_refl _, by omega⟩)
    omega

namespace History

variable {h : History} {top : Nat} {previous : Registry}

/-- The heights of old quorums after a block: as many of the last ones as are kept. -/
theorem heights_old_push (h : History) (blockHeight : Nat) (previous : Registry) :
    (h.push blockHeight previous).old.toList.map (·.height) =
      (h.old.toList.map (·.height) ++ (h.leaving blockHeight).map (·.height)).rtake
        h.oldLimit := by
  rw [old_push, List.map_drop, List.map_append]
  unfold List.rtake
  rw [List.length_append, List.length_append, List.length_map, List.length_map]

/-! ## Layers -/

/-- The layers of a history in order: archived registries lie below the recent ones, and among
the old quorums if any are kept, of which there are no more than asked for. -/
structure Layered (h : History) (top : Nat) : Prop where
  ordered : h.Ordered top
  below : ∀ k r k' r', h.archive.get? k = some r → h.recent.get? k' = some r' → k < k'
  covered : 0 < h.oldLimit → ∀ k r, h.archive.get? k = some r → ∃ e ∈ h.old.toList, k ≤ e.height
  few : h.old.toList.length ≤ h.oldLimit

theorem layered_new (setting top : Nat) : (History.new setting).Layered top := by
  refine ⟨ordered_new setting top, fun k r _ _ hr => ?_, fun _ k r hr => ?_, Nat.zero_le _⟩
  · cases hr
  · cases hr

namespace Layered

/-- A block keeps the layers. -/
theorem push (hh : h.Layered top) (hprevious : previous.height = top) :
    (h.push (top + 1) previous).Layered (top + 1) := by
  refine ⟨hh.ordered.push hprevious, fun k r k' r' hr hr' => ?_, fun hlimit k r hr => ?_, ?_⟩
  · have hbelow : k < top ∧ (cullHeight (top + 1) < k' → h.recent.get? k' = some r' → k < k') := by
      rcases archive_push_cases h _ _ hr with ⟨hculled, old, hold, -⟩ | hr
      · exact ⟨(hh.ordered.recent k old hold).2, fun hkept _ => Nat.lt_of_le_of_lt hculled hkept⟩
      · exact ⟨(hh.ordered.archive k r hr).2, fun _ => hh.below k r k' r' hr⟩
    rcases recent_push_cases h _ _ hr' with ⟨hk', -⟩ | ⟨hkept, hr'⟩
    · rw [hk', hprevious]
      exact hbelow.1
    · exact hbelow.2 hkept hr'
  · -- The last of the old quorums stays, and lies above what was archived before or is now.
    rw [oldLimit_push] at hlimit
    have hbefore : ∃ k' ∈ h.old.toList.map (·.height) ++ (h.leaving (top + 1)).map (·.height),
        k ≤ k' := by
      rcases archive_push_cases h _ _ hr with ⟨hculled, old, hold, -⟩ | hr
      · have hmem := List.mem_map_of_mem (f := QuorumsAt.height)
          (mem_leaving_of_culled hlimit hculled hold)
        exact ⟨k, List.mem_append_right _ hmem, Nat.le_refl k⟩
      · obtain ⟨e, he, hle⟩ := hh.covered hlimit k r hr
        exact ⟨e.height, List.mem_append_left _ (List.mem_map_of_mem he), hle⟩
    obtain ⟨k', hmem, hle⟩ := hbefore
    have hascending := hh.ordered.ascending_append (top + 1)
    rw [List.map_append] at hascending
    obtain ⟨front, last, heq, hlast⟩ := exists_last_of_ascending hascending hmem
    have hkept : last ∈ (h.push (top + 1) previous).old.toList.map (·.height) := by
      rw [heights_old_push, heq]
      unfold List.rtake
      rw [List.drop_append_of_le_length (by rw [List.length_append, List.length_singleton]; omega)]
      exact List.mem_append_right _ (List.mem_singleton.2 rfl)
    obtain ⟨e, he, rfl⟩ := List.mem_map.1 hkept
    exact ⟨e, he, by omega⟩
  · rw [oldLimit_push, old_push, List.length_drop]
    omega

/-- Going back to a recent registry keeps the layers below it. -/
theorem rewind_to_recent (hh : h.Layered top) {height : Nat} {r : Registry}
    (hr : h.recent.get? height = some r) :
    ({ h with recent := h.recent.filter fun k _ => decide (k < height) } : History).Layered
      r.height := by
  have hheight := (hh.ordered.recent height r hr).1
  have hrecent : ∀ k r', (h.recent.filter fun k _ => decide (k < height)).get? k = some r' →
      h.recent.get? k = some r' ∧ k < height := by
    intro k r' hr'
    rw [SortedMap.get?_filter] at hr'
    obtain ⟨hget, hlow⟩ := Option.filter_eq_some_iff.1 hr'
    exact ⟨hget, by simpa using hlow⟩
  rw [hheight]
  refine ⟨⟨fun k r' hr' => ?_, fun k r' hr' => ?_, hh.ordered.ascending, fun e he => ?_⟩,
    fun k r' k' r'' hr' hr'' => ?_, hh.covered, hh.few⟩
  · obtain ⟨hget, hlow⟩ := hrecent k r' hr'
    exact ⟨(hh.ordered.recent k r' hget).1, hlow⟩
  · exact ⟨(hh.ordered.archive k r' hr').1, hh.below k r' height r hr' hr⟩
  · have hold := (hh.ordered.old e he).2
    exact ⟨hold height r hr, fun k r' hr' => hold k r' (hrecent k r' hr').1⟩
  · exact hh.below k r' k' r'' hr' (hrecent k' r'' hr'').1

/-- Going back to an archived registry keeps the layers if no old quorums are kept. -/
theorem rewind_to_archive (hh : h.Layered top) (hlimit : h.oldLimit = 0) {height : Nat}
    {r : Registry} (hr : h.archive.get? height = some r) :
    ({ h with
      recent := ∅
      archive := h.archive.filter fun k _ => decide (k < height) } : History).Layered r.height := by
  have hheight := (hh.ordered.archive height r hr).1
  have hnone : h.old.toList = [] := by
    have := hh.few
    rw [hlimit] at this
    exact List.eq_nil_of_length_eq_zero (by omega)
  rw [hheight]
  refine ⟨⟨fun k r' hr' => ?_, fun k r' hr' => ?_, hh.ordered.ascending, fun e he => ?_⟩,
    fun k r' k' r'' _ hr'' => ?_, fun hpos => ?_, hh.few⟩
  · cases hr'
  · rw [SortedMap.get?_filter] at hr'
    obtain ⟨hget, hlow⟩ := Option.filter_eq_some_iff.1 hr'
    exact ⟨(hh.ordered.archive k r' hget).1, by simpa using hlow⟩
  · rw [hnone] at he
    cases he
  · cases hr''
  · exact absurd hpos (by rw [hlimit]; exact Nat.lt_irrefl 0)

end Layered

/-! ## Blocks applied again -/

/-- The number of heights from `base` on that have grown old below `top`. -/
def regrown (base top : Nat) : Nat := if base + 1 < top then cullHeight top + 1 - base else 0

/-- The recent registries are those that blocks above `base` have left behind, and the old
quorums the last ones of those that were there before and those that these blocks have added. -/
structure Regrown (h : History) (past : List Nat) (base top : Nat) : Prop where
  recent : ∀ k, (∃ r, h.recent.get? k = some r) ↔
    base ≤ k ∧ k < top ∧ (cullHeight top < k ∨ k + 1 = top)
  old : h.old.toList.map (·.height) = (past ++ List.range' base (regrown base top)).rtake h.oldLimit

/-- No block has been applied again yet. -/
theorem regrown_of_empty (hrecent : h.recent = ∅) (hfew : h.old.toList.length ≤ h.oldLimit)
    (base : Nat) : h.Regrown (h.old.toList.map (·.height)) base base := by
  constructor
  · intro k
    rw [hrecent]
    refine iff_of_false (fun ⟨r, hr⟩ => ?_) (by omega)
    cases hr
  · have hnone : regrown base base = 0 := if_neg (by omega)
    rw [hnone, List.range'_zero, List.append_nil]
    unfold List.rtake
    rw [List.length_map, Nat.sub_eq_zero_of_le hfew, List.drop_zero]

namespace Regrown

variable {past : List Nat} {base : Nat}

/-- The next block adds the heights that have just grown old. -/
theorem heights_leaving (hh : h.Regrown past base top) (hbase : base ≤ top)
    (hlimit : 0 < h.oldLimit) : (h.leaving (top + 1)).map (·.height) =
      List.range' (base + regrown base top) (regrown base (top + 1) - regrown base top) := by
  have hmem : ∀ k, k ∈ (h.leaving (top + 1)).map (·.height) ↔
      (∃ r, h.recent.get? k = some r) ∧ k ≤ cullHeight (top + 1) := by
    intro k
    constructor
    · intro hk
      obtain ⟨e, he, rfl⟩ := List.mem_map.1 hk
      obtain ⟨hculled, hr⟩ := mem_leaving he
      exact ⟨hr, hculled⟩
    · rintro ⟨⟨r, hr⟩, hculled⟩
      exact List.mem_map_of_mem (f := QuorumsAt.height) (mem_leaving_of_culled hlimit hculled hr)
  have hfloor : cullHeight top = top - recentBlocks := rfl
  have hfloor' : cullHeight (top + 1) = top + 1 - recentBlocks := rfl
  have hmany : 1 < recentBlocks := by decide
  -- Both lists ascend, so it is enough that they have the same members.
  refine List.Perm.eq_of_pairwise (fun a b _ _ (hab : a < b) hba => absurd hba (Nat.lt_asymm hab))
    (ascending_leaving h _) List.pairwise_lt_range'
    ((List.perm_ext_iff_of_nodup ((ascending_leaving h _).imp Nat.ne_of_lt)
      List.nodup_range').2 fun k => ?_)
  rw [hmem, hh.recent, List.mem_range'_1]
  unfold regrown
  split <;> split <;> omega

/-- The next block. -/
theorem push (hh : h.Regrown past base top) (hbase : base ≤ top) (hlimit : 0 < h.oldLimit)
    (hprevious : previous.height = top) :
    (h.push (top + 1) previous).Regrown past base (top + 1) := by
  have hfloor : cullHeight top = top - recentBlocks := rfl
  have hfloor' : cullHeight (top + 1) = top + 1 - recentBlocks := rfl
  constructor
  · intro k
    rw [recent_push, hprevious]
    by_cases hk : k = top
    · rw [if_pos hk]
      exact iff_of_true ⟨previous, rfl⟩ (by omega)
    · rw [if_neg hk]
      split
      · rw [hh.recent]
        omega
      · refine iff_of_false (fun ⟨r, hr⟩ => ?_) (by omega)
        cases hr
  · have hmore : regrown base top ≤ regrown base (top + 1) := by
      unfold regrown
      split <;> split <;> omega
    rw [heights_old_push, oldLimit_push, hh.old, hh.heights_leaving hbase hlimit,
      rtake_append_rtake, List.append_assoc, List.range'_append_1, Nat.add_sub_cancel' hmore]

/-- Old quorums ascend while no height that was old has grown old again, and once as many have as
are kept. -/
theorem ascends_iff (hh : h.Regrown past base top) (hpast : past.Pairwise (· < ·))
    (hfew : past.length ≤ h.oldLimit) (hover : ∃ k ∈ past, base ≤ k) :
    (h.old.toList.map (·.height)).Pairwise (· < ·) ↔
      (base + 1 < top → base ≤ cullHeight top → base + h.oldLimit ≤ cullHeight top + 1) := by
  rw [hh.old, ascending_rtake_append_range' hpast hfew hover]
  unfold regrown
  split
  · omega
  · omega

end Regrown

end History

end StakeRegistry
