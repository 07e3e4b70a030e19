import StakeRegistry.Proofs.Stored.Restoring
import StakeRegistry.Proofs.Stored.RoundTrip

/-!
# Reopening a snapshot

What is stored of a head and its history, written as bytes, read and restored, is the head, the
archive, the recent registries up to `maxShortTerm` (stripped to their quorums, but for the one
at that height) and the old quorums as far back as the setting asks: all of them under the
setting 1, and those of the last `setting` heights under any other.

Main statement: `History.Storable.reopens`.
-/

set_option autoImplicit false

namespace StakeRegistry

namespace Registry

/-- A registry that is stored for its quorums only comes back stripped to them, with the hash
that the chain knows. -/
theorem restored_stripped {r : Registry} {ctx : LoadContext}
    (hhash : ctx.blockHashAt? r.height = some r.blockHash) :
    (r.stored true).registry ctx = r.toQuorumsOnly := by
  have hstored : (r.stored true).hashIn ctx = r.blockHash := by
    show (ctx.blockHashAt? r.height).getD 0 = r.blockHash
    rw [hhash]
    rfl
  have hquorums := (r.quorums_restored true ctx).2
  unfold StoredState.registry at hquorums ⊢
  dsimp only at hquorums
  rw [hstored, hquorums]
  show Registry.mk r.height r.blockHash (SortedMap.ofList []) [] r.quorums (r.quorumsOnly || true) =
    r.toQuorumsOnly
  rw [Bool.or_true]
  rfl

/-- A registry in the current layout that the chain knows comes back in the form in which it was
stored. -/
theorem restored_of_known {r : Registry} {ctx : LoadContext} (hcurrent : r.IsCurrent)
    (hhash : ctx.blockHashAt? r.height = some r.blockHash) (onlyQuorums : Bool) :
    (r.stored onlyQuorums).registry ctx = if onlyQuorums then r.toQuorumsOnly else r := by
  cases onlyQuorums with
  | true => exact restored_stripped hhash
  | false => exact restored_eq hcurrent (by rw [hhash]; rfl)

end Registry

/-- Registries that come back as they were find their places again. -/
theorem byHeight_stored {m : SortedMap Nat Registry} {ctx : LoadContext}
    (hkeyed : ∀ k r, m.get? k = some r → r.height = k)
    (hsame : ∀ k r, m.get? k = some r → (r.stored false).registry ctx = r) :
    byHeight (m.toList.map fun p => (p.2.stored false).registry ctx) = m := by
  have hpairs : (m.toList.map fun p => (p.2.stored false).registry ctx) =
      m.toList.map fun p => p.2 :=
    List.map_congr_left fun p hp => hsame p.1 p.2 (SortedMap.get?_eq_some_iff.2 hp)
  rw [hpairs]
  refine (byHeight_map (f := fun _ r => r) hkeyed).trans (SortedMap.ext ?_)
  exact List.map_id _

/-- What is kept by height is kept under its height. -/
theorem mem_of_byHeight {registries : List Registry} {k : Nat} {r : Registry}
    (hr : (byHeight registries).get? k = some r) : r ∈ registries ∧ r.height = k := by
  obtain ⟨r', hmem, heq⟩ := List.mem_map.1 (SortedMap.mem_of_get?_ofList hr)
  cases heq
  exact ⟨hmem, rfl⟩

/-- Whatever is read of a stored registry is in the current layout. -/
theorem StoredState.isCurrent_registry (state : StoredState) (ctx : LoadContext) :
    (state.registry ctx).IsCurrent := by
  intro key info hinfo
  obtain ⟨n, -, heq⟩ := List.mem_map.1 (SortedMap.mem_of_get?_ofList hinfo)
  cases heq
  rfl

/-- What is restored of any stored data, by parts. -/
theorem restored_parts {ctx : LoadContext} {long : Option StoredData} {short : StoredData}
    {currentHeight setting : Nat} {restored : Restored}
    (h : restore ctx long short currentHeight setting = .ok restored) :
    (∃ state : StoredState, short.head = .ok state ∧ restored.head = state.registry ctx) ∧
      restored.history.recent = byHeight (short.states.dropLast.map (·.registry ctx)) ∧
      restored.history.archive =
        byHeight (((long.map (·.states)).getD []).map (·.registry ctx)) ∧
      restored.history.archiveChanged = false := by
  unfold restore at h
  obtain ⟨old, -, h⟩ := bind_eq_ok_iff.1 h
  obtain ⟨state, hstate, h⟩ := bind_eq_ok_iff.1 h
  cases h
  exact ⟨⟨state, hstate, rfl⟩, rfl, rfl, rfl⟩

namespace History

/-! ## The parts of what is restored -/

section Parts

variable {h : History} {head : Registry} {ctx : LoadContext} {currentHeight setting : Nat}

/-- Old quorums in order are read from any height on. -/
theorem oldFrom_shortTerm (hascending : (h.old.toList.map (·.height)).Pairwise (· < ·))
    (height : Nat) : (h.shortTerm head).oldFrom height =
      .ok (h.old.toList.filter fun e => decide (height ≤ e.height)) := by
  have hkept : (h.shortTerm head).quorums.filter (fun q => decide (height ≤ q.height)) =
      (h.old.toList.filter fun e => decide (height ≤ e.height)).map fun e =>
        StoredQuorums.of e.height e.quorums := by
    show (h.old.toList.map fun e => StoredQuorums.of e.height e.quorums).filter _ = _
    rw [List.filter_map]
    rfl
  unfold StoredData.oldFrom
  dsimp only
  rw [hkept, if_pos]
  · rw [List.map_map]
    refine congrArg Except.ok ((List.map_congr_left fun e _ => ?_).trans (List.map_id _))
    show (⟨e.height, (StoredQuorums.of e.height e.quorums).quorums⟩ : QuorumsAt) = e
    rw [StoredQuorums.quorums_of]
  · rw [ascends_iff_pairwise, List.map_map]
    exact hascending.sublist (List.filter_sublist.map _)

/-- A head that is not stripped is stored as the head. -/
theorem head_shortTerm (hfull : head.quorumsOnly = false) :
    (h.shortTerm head).head = .ok (head.stored false) := by
  unfold StoredData.head shortTerm
  dsimp only
  rw [List.getLast?_concat]
  show (if (head.quorumsOnly || false) = true then _ else _) = _
  rw [hfull]
  rfl

/-- A snapshot with old quorums in order and a full head can be restored. -/
theorem restore_snapshot (hascending : (h.old.toList.map (·.height)).Pairwise (· < ·))
    (hfull : head.quorumsOnly = false) :
    restore ctx (some h.longTerm) (h.shortTerm head) currentHeight setting = .ok
      { head := (head.stored false).registry ctx
        history := { History.new setting with
          recent := byHeight
            ((h.recent.toList.filter fun p => decide (p.1 ≤ maxShortTerm head.height)).map fun p =>
              (p.2.stored (decide (p.1 < maxShortTerm head.height))).registry ctx)
          archive := byHeight
            (h.archive.toList.map fun p => (p.2.stored false).registry ctx)
          old := Ring.ofList (h.old.toList.filter fun e =>
            decide (currentHeight - limitOf setting ≤ e.height)) } } := by
  unfold restore
  dsimp only
  rw [oldFrom_shortTerm hascending, head_shortTerm hfull]
  have hrecent : (h.shortTerm head).states.dropLast.map (·.registry ctx) =
      (h.recent.toList.filter fun p => decide (p.1 ≤ maxShortTerm head.height)).map fun p =>
        (p.2.stored (decide (p.1 < maxShortTerm head.height))).registry ctx := by
    unfold shortTerm
    dsimp only
    rw [List.dropLast_concat, List.map_map]
    rfl
  have harchive : (((some h.longTerm).map (·.states)).getD []).map (·.registry ctx) =
      h.archive.toList.map fun p => (p.2.stored false).registry ctx := by
    show ((h.archive.toList.map (·.2)).map (·.stored false)).map (·.registry ctx) = _
    rw [List.map_map, List.map_map]
    rfl
  show Except.ok (ε := StoreError) _ = _
  rw [← hrecent, ← harchive]
  rfl

/-- The old quorums from as far back as a setting asks: under the setting 1 all of them. -/
theorem filter_oldLimit (hheight : currentHeight ≤ maxU64) (l : List QuorumsAt) :
    l.filter (fun e => decide (currentHeight - limitOf setting ≤ e.height)) =
      if setting = 1 then l
      else l.filter fun e => decide (currentHeight - setting ≤ e.height) := by
  unfold limitOf
  split
  · rw [Nat.sub_eq_zero_of_le hheight]
    simp
  · rfl

end Parts

/-! ## The round trip -/

/-- A head and a history that can be stored over a chain: archived registries are kept under
their heights, old quorums in the order of theirs, the head is not stripped, the chain knows the
block of every registry, entries are in the current layout and numbers fit their words. -/
structure Storable (h : History) (head : Registry) (ctx : LoadContext) : Prop where
  archive : ∀ k r, h.archive.get? k = some r → r.height = k
  ascending : (h.old.toList.map (·.height)).Pairwise (· < ·)
  full : head.quorumsOnly = false
  known : ∀ r, r = head ∨ r ∈ h.recent.values ∨ r ∈ h.archive.values →
    r.IsCurrent ∧ ctx.blockHashAt? r.height = some r.blockHash
  fits : StoredData.codec.Fits h.longTerm ∧ StoredData.codec.Fits (h.shortTerm head)

/-- The form in which the registry of a height is restored below a greatest height. -/
def restoredForm (limit height : Nat) (r : Registry) : Registry :=
  if height < limit then r.toQuorumsOnly else r

namespace Storable

variable {h : History} {head : Registry} {ctx : LoadContext} {currentHeight setting : Nat}

theorem archive_restored (hh : h.Storable head ctx) :
    byHeight (h.archive.toList.map fun p => (p.2.stored false).registry ctx) = h.archive := by
  refine byHeight_stored hh.archive fun k r hr => ?_
  have hmem := SortedMap.get?_eq_some_iff.1 hr
  obtain ⟨hcurrent, hhash⟩ := hh.known r (.inr (.inr (List.mem_map_of_mem hmem)))
  exact Registry.restored_of_known hcurrent hhash false

theorem recent_restored (hh : h.Storable head ctx) (limit : Nat) :
    ((h.recent.toList.filter fun p => decide (p.1 ≤ limit)).map fun p =>
        (p.2.stored (decide (p.1 < limit))).registry ctx) =
      (h.recent.toList.filter fun p => decide (p.1 ≤ limit)).map fun p =>
        restoredForm limit p.1 p.2 := by
  refine List.map_congr_left fun p hp => ?_
  have hmem : p.2 ∈ h.recent.values := List.mem_map_of_mem (List.mem_of_mem_filter hp)
  obtain ⟨hcurrent, hhash⟩ := hh.known p.2 (.inr (.inl hmem))
  rw [Registry.restored_of_known hcurrent hhash]
  simp [restoredForm]

/-- Recent registries that are kept under their heights are found again there. -/
theorem get?_byHeight (hkeyed : ∀ k r, h.recent.get? k = some r → r.height = k) (limit k : Nat) :
    (byHeight ((h.recent.toList.filter fun p => decide (p.1 ≤ limit)).map fun p =>
        restoredForm limit p.1 p.2)).get? k =
      if k ≤ limit then (h.recent.get? k).map (restoredForm limit k) else none := by
  have hform : ∀ k r, (restoredForm limit k r).height = r.height := by
    intro k r
    unfold restoredForm
    split <;> rfl
  have hmap := byHeight_map (f := restoredForm limit)
    (m := h.recent.filter fun k _ => decide (k ≤ limit)) fun k r hr => by
      rw [SortedMap.get?_filter] at hr
      exact (hform k r).trans (hkeyed k r (Option.filter_eq_some_iff.1 hr).1)
  refine (congrArg (·.get? k) hmap).trans ?_
  rw [SortedMap.get?_mapValues, SortedMap.get?_filter]
  cases h.recent.get? k <;> by_cases hk : k ≤ limit <;> simp [Option.filter, hk]

/-- A stored snapshot is read and restored: the head and the archive as they were, the old
quorums as far back as the setting asks, and of the recent registries those up to the greatest
height that is stored, stripped to their quorums below it. -/
theorem reopens (hh : h.Storable head ctx) (hheight : currentHeight ≤ maxU64) :
    ∃ long short restored,
      StoredData.codec.read? (StoredData.codec.encode h.longTerm) = some long ∧
      StoredData.codec.read? (StoredData.codec.encode (h.shortTerm head)) = some short ∧
      restore ctx (some long) short currentHeight setting = .ok restored ∧
      restored.head = head ∧
      restored.history.archive = h.archive ∧
      restored.history.old.toList = (if setting = 1 then h.old.toList else
        h.old.toList.filter fun e => decide (currentHeight - setting ≤ e.height)) ∧
      restored.history.recent = byHeight
        ((h.recent.toList.filter fun p => decide (p.1 ≤ maxShortTerm head.height)).map fun p =>
          restoredForm (maxShortTerm head.height) p.1 p.2) ∧
      ((∀ k r, h.recent.get? k = some r → r.height = k) → ∀ k,
        restored.history.recent.get? k =
          if k ≤ maxShortTerm head.height then
            (h.recent.get? k).map (restoredForm (maxShortTerm head.height) k)
          else none) := by
  obtain ⟨hcurrent, hhash⟩ := hh.known head (.inl rfl)
  have hrecent := hh.recent_restored (maxShortTerm head.height)
  refine ⟨_, _, _, StoredData.read?_encode hh.fits.1, StoredData.read?_encode hh.fits.2,
    restore_snapshot hh.ascending hh.full, Registry.restored_of_known hcurrent hhash false,
    hh.archive_restored, ?_, ?_, fun hkeyed k => ?_⟩
  · exact (Ring.toList_ofList _).trans (filter_oldLimit hheight _)
  · exact congrArg byHeight hrecent
  · exact (congrArg (fun l => (byHeight l).get? k) hrecent).trans (get?_byHeight hkeyed _ k)

end Storable

/-! ## A stored history -/

/-- A hash for every height. -/
def heightHash (height : Nat) : Hash := Bytes.ofNatLE 32 (height + 1)

/-- A registry without nodes, after the block of a height. -/
def bareRegistry (height : Nat) : Registry := { height := height, blockHash := heightHash height }

/-- The chain of those blocks. -/
def bareChain : LoadContext := ⟨fun _ => .v21, fun height => some (heightHash height)⟩

/-- A history below height 20: two recent registries, one archived, and two old quorums. -/
def bareHistory : History :=
  { History.new 1 with
    recent := SortedMap.ofList [(18, bareRegistry 18), (19, bareRegistry 19)]
    archive := SortedMap.ofList [(0, bareRegistry 0)]
    old := Ring.ofList [⟨5, Quorums.none⟩, ⟨17, Quorums.none⟩] }

theorem known_bareRegistry (height : Nat) : (bareRegistry height).IsCurrent ∧
    bareChain.blockHashAt? (bareRegistry height).height = some (bareRegistry height).blockHash :=
  ⟨Registry.isCurrent_new height, rfl⟩

theorem storable_bareHistory : bareHistory.Storable (bareRegistry 20) bareChain where
  archive k r hr := by
    have hmem : (k, r) ∈ [(0, bareRegistry 0)] := SortedMap.get?_eq_some_iff.1 hr
    cases List.mem_singleton.1 hmem
    rfl
  ascending := by decide
  full := rfl
  known r hr := by
    have hmem : r ∈ [20, 18, 19, 0].map bareRegistry := by
      have hrecent : bareHistory.recent.values = [18, 19].map bareRegistry := rfl
      have harchive : bareHistory.archive.values = [0].map bareRegistry := rfl
      rw [hrecent, harchive] at hr
      rcases hr with rfl | hr | hr
      · exact List.mem_map_of_mem (by decide)
      · exact List.map_subset _ (by decide) hr
      · exact List.map_subset _ (by decide) hr
    obtain ⟨height, -, rfl⟩ := List.mem_map.1 hmem
    exact known_bareRegistry height
  fits := by decide

/-- Under the setting 10 the later of the two old quorums comes back, with the two recent
registries stripped. -/
theorem reopens_bareHistory :
    (bareHistory.Storable (bareRegistry 20) bareChain ∧ 21 ≤ maxU64) ∧
      ∃ long short restored,
        StoredData.codec.read? (StoredData.codec.encode bareHistory.longTerm) = some long ∧
        StoredData.codec.read? (StoredData.codec.encode (bareHistory.shortTerm (bareRegistry 20))) =
          some short ∧
        restore bareChain (some long) short 21 10 = .ok restored ∧
        restored.head = bareRegistry 20 ∧
        restored.history.archive = bareHistory.archive ∧
        restored.history.old.toList = [⟨17, Quorums.none⟩] ∧
        restored.history.recent = SortedMap.ofList
          [(18, (bareRegistry 18).toQuorumsOnly), (19, (bareRegistry 19).toQuorumsOnly)] := by
  refine ⟨⟨storable_bareHistory, by decide⟩, ?_⟩
  obtain ⟨long, short, restored, hlong, hshort, hrestore, hhead, harchive, hold, hrecent, -⟩ :=
    @Storable.reopens bareHistory (bareRegistry 20) bareChain 21 10 storable_bareHistory (by decide)
  exact ⟨long, short, restored, hlong, hshort, hrestore, hhead, harchive, hold.trans (by decide),
    hrecent.trans (by decide)⟩

/-- The old quorums of the last block before height 21 come back under the setting 1, and so
do all others: it does not stand for a single block. -/
theorem reopens_all_of_one : bareHistory.Storable (bareRegistry 20) bareChain ∧
    ¬ ∃ long short restored,
      StoredData.codec.read? (StoredData.codec.encode bareHistory.longTerm) = some long ∧
      StoredData.codec.read? (StoredData.codec.encode (bareHistory.shortTerm (bareRegistry 20))) =
        some short ∧
      restore bareChain (some long) short 21 1 = .ok restored ∧
      restored.history.old.toList =
        bareHistory.old.toList.filter fun e => decide (21 - 1 ≤ e.height) := by
  refine ⟨storable_bareHistory, ?_⟩
  rintro ⟨long, short, restored, hlong, hshort, hrestore, hold⟩
  rw [StoredData.read?_encode storable_bareHistory.fits.1] at hlong
  rw [StoredData.read?_encode storable_bareHistory.fits.2] at hshort
  cases hlong
  cases hshort
  rw [restore_snapshot storable_bareHistory.ascending storable_bareHistory.full] at hrestore
  cases hrestore
  exact absurd hold (by decide)

end History

end StakeRegistry
