import StakeRegistry.Proofs.History.Ageing
import StakeRegistry.Proofs.Transition.Agreement
import StakeRegistry.Proofs.Transition.Entries
import StakeRegistry.Stored.Snapshot

/-!
# What a snapshot restores

A head is restored as it was, since every entry that a block creates is in the current layout
(`current_law`). Of the past, the quorums of all recent registries up to `maxShortTerm` and the
archive are restored. The heights between that limit and the head are left out of a snapshot
(`History.LeftOut`), and of them nothing is restored. Main statements:

* `History.Ordered.restore`: tiers in order are restored in order;
* `History.obligations?_restore`: what a restored view has on record.
-/

set_option autoImplicit false

namespace StakeRegistry

/-! ## Maps made again from their values -/

/-- Registries that are kept under their heights find their places again. -/
theorem byHeight_map {m : SortedMap Nat Registry} {f : Nat → Registry → Registry}
    (h : ∀ k r, m.get? k = some r → (f k r).height = k) :
    byHeight (m.toList.map fun p => f p.1 p.2) = m.mapValues f := by
  have hpairs : (m.toList.map fun p => f p.1 p.2).map (fun r => (r.height, r)) =
      (m.mapValues f).toList := by
    rw [List.map_map]
    refine List.map_congr_left fun p hp => ?_
    have hkey := h p.1 p.2 (SortedMap.get?_eq_some_iff.2 hp)
    show ((f p.1 p.2).height, f p.1 p.2) = (p.1, f p.1 p.2)
    rw [hkey]
  rw [byHeight, hpairs, SortedMap.ofList_toList]

/-! ## One registry -/

theorem StoredQuorums.quorums_of (height : Nat) (qs : Quorums) :
    (StoredQuorums.of height qs).quorums = qs := by
  cases qs
  rfl

/-- An entry in the current layout needs no upgrade. -/
theorem NodeInfo.upgrade_of_current {info : NodeInfo} (h : info.version = InfoVersion.current)
    (forkAt : Nat → HardFork) : info.upgrade forkAt = info := by
  obtain ⟨version⟩ := info
  dsimp only at h
  subst h
  rfl

/-- What a block does to an entry keeps it in the current layout. -/
theorem current_law (ctx : Context) (block : Block) :
    EntryLaw ctx block fun _ info => info.version = InfoVersion.current := by
  constructor
  case sameStakes =>
    intro origin info info' h hsame
    rw [hsame.version]
    exact h
  case registered =>
    intro index tx key info hnode
    exact (layout_of_registeredNode hnode).1
  case bridged =>
    intro index tx key info hnode
    exact (layout_of_bridgedNode hnode).1
  case credited =>
    intro origin info index tx stake h _
    rw [(NodeInfo.layout_creditStake info _ _ _ _).1]
    exact h

namespace Registry

/-- Every entry is in the current layout. -/
def IsCurrent (r : Registry) : Prop :=
  ∀ key info, r.info? key = some info → info.version = InfoVersion.current

theorem isCurrent_new (height : Nat) : (Registry.new height).IsCurrent := by
  intro key info hinfo
  cases hinfo

/-- Blocks keep all entries in the current layout. -/
theorem IsCurrent.apply {r next : Registry} {ctx : Context} {block : Block}
    {txs : List Transaction} {outcome : Outcome} (h : r.IsCurrent)
    (happly : r.apply ctx block txs = .ok (next, outcome)) : next.IsCurrent := by
  have hkeeps : r.Keeps (fun _ info => info.version = InfoVersion.current) fun _ => .bridge := h
  exact hkeeps.apply (current_law ctx block) happly

/-- Height and quorums are stored in either form. -/
theorem quorums_restored (r : Registry) (onlyQuorums : Bool) (ctx : LoadContext) :
    ((r.stored onlyQuorums).registry ctx).height = r.height ∧
      ((r.stored onlyQuorums).registry ctx).quorums = r.quorums :=
  ⟨rfl, StoredQuorums.quorums_of r.height r.quorums⟩

/-- A registry that is stored in full is restored as it was, if its hash is. -/
theorem restored_of_hashIn {r : Registry} (h : r.IsCurrent) {ctx : LoadContext}
    (hstored : (r.stored false).hashIn ctx = r.blockHash) :
    (r.stored false).registry ctx = r := by
  -- No entry needs an upgrade, so the pairs come back unchanged and make the same map.
  have hnodes : r.nodes.toList.map (fun n => (n.1, n.2.upgrade ctx.forkAt)) = r.nodes.toList := by
    refine (List.map_congr_left fun n hn => ?_).trans (List.map_id _)
    rw [NodeInfo.upgrade_of_current (h n.1 n.2 (SortedMap.get?_eq_some_iff.2 hn))]
    rfl
  have hquorums := (r.quorums_restored false ctx).2
  unfold StoredState.registry at hquorums ⊢
  dsimp only at hquorums
  rw [hstored, hquorums]
  show Registry.mk r.height r.blockHash
    (SortedMap.ofList (r.nodes.toList.map fun n => (n.1, n.2.upgrade ctx.forkAt))) r.blacklist
    r.quorums (r.quorumsOnly || false) = r
  rw [hnodes, SortedMap.ofList_toList, Bool.or_false]

/-- That is so if the chain knows a hash that counts as not stored. -/
theorem restored_eq {r : Registry} (h : r.IsCurrent) {ctx : LoadContext}
    (hhash : (ctx.blockHashAt? r.height).getD 0 = r.blockHash) :
    (r.stored false).registry ctx = r := by
  refine restored_of_hashIn h ?_
  -- A zero hash counts as not stored and is looked up; any other is kept.
  show (if stateVersion = hashlessStateVersion ∨ r.blockHash = 0 then
    (ctx.blockHashAt? r.height).getD 0 else r.blockHash) = r.blockHash
  rw [hhash, ite_self]

end Registry

/-! ## The past -/

namespace History

/-- The heights below a head whose registries its snapshot leaves out. -/
def LeftOut (top height : Nat) : Prop := maxShortTerm top < height ∧ height < top

instance (top height : Nat) : Decidable (LeftOut top height) :=
  inferInstanceAs (Decidable (_ ∧ _))

/-- Registries are kept under their heights. -/
structure Keyed (h : History) : Prop where
  recent : ∀ k r, h.recent.get? k = some r → r.height = k
  archive : ∀ k r, h.archive.get? k = some r → r.height = k

/-- The tiers of an unbroken run keep registries under their heights. -/
theorem Holds.keyed {h : History} {published : Nat → Option Registry} {top : Nat}
    (hh : h.Holds published top) (hpublished : ∀ k r, published k = some r → r.height = k) :
    h.Keyed := by
  constructor
  · intro k r hr
    rw [hh.recent] at hr
    split at hr
    · exact hpublished k r hr
    · cases hr
  · intro k r hr
    rw [hh.archive] at hr
    split at hr
    · obtain ⟨p, hp, harchived⟩ := Option.bind_eq_some_iff.1 hr
      exact (height_of_archived? harchived).trans (hpublished k p hp)
    · cases hr

variable {h : History} {head : Registry} {ctx : LoadContext} {currentHeight setting : Nat}
  {restored : Restored}

/-- The parts of what a snapshot restores. -/
theorem restore_eq_ok (hkeyed : h.Keyed)
    (hrestore : restore ctx (some h.longTerm) (h.shortTerm head) currentHeight setting =
      .ok restored) :
    restored.head = (head.stored false).registry ctx ∧
    restored.history.recent =
      (h.recent.filter fun k _ => decide (k ≤ maxShortTerm head.height)).mapValues (fun k r =>
        (r.stored (decide (k < maxShortTerm head.height))).registry ctx) ∧
    restored.history.archive = h.archive.mapValues fun _ r => (r.stored false).registry ctx := by
  unfold restore at hrestore
  obtain ⟨old, -, hrestore⟩ := bind_eq_ok_iff.1 hrestore
  obtain ⟨last, hlast, hrestore⟩ := bind_eq_ok_iff.1 hrestore
  -- The head is stored last.
  have hstates : ∀ p : Registry, (h.shortTerm p).states.getLast? = some (p.stored false) := by
    intro p
    unfold shortTerm
    dsimp only
    rw [List.getLast?_concat]
  have hhead : last = head.stored false := by
    unfold StoredData.head at hlast
    rw [hstates] at hlast
    dsimp only at hlast
    split at hlast
    · cases hlast
    · cases hlast
      rfl
  cases hrestore
  dsimp only
  refine ⟨by rw [hhead], ?_, ?_⟩
  · unfold shortTerm
    dsimp only
    rw [List.dropLast_concat, List.map_map]
    refine byHeight_map (f := fun k r =>
      (r.stored (decide (k < maxShortTerm head.height))).registry ctx)
      (m := h.recent.filter fun k _ => decide (k ≤ maxShortTerm head.height)) fun k r hr => ?_
    rw [SortedMap.get?_filter] at hr
    exact hkeyed.recent k r (Option.filter_eq_some_iff.1 hr).1
  · unfold longTerm
    rw [Option.map_some, Option.getD_some]
    show byHeight ((h.archive.toList.map (·.2) |>.map (·.stored false)).map (·.registry ctx)) = _
    rw [List.map_map, List.map_map]
    exact byHeight_map (f := fun _ r => (r.stored false).registry ctx) (m := h.archive)
      fun k r hr => hkeyed.archive k r hr

/-- Old quorums are restored from a height on. -/
theorem old_of_restore
    (hrestore : restore ctx (some h.longTerm) (h.shortTerm head) currentHeight setting =
      .ok restored) :
    ∃ lowest, restored.history.old.toList =
      h.old.toList.filter fun e => decide (lowest ≤ e.height) := by
  unfold restore at hrestore
  obtain ⟨old, hold, hrestore⟩ := bind_eq_ok_iff.1 hrestore
  obtain ⟨last, -, hrestore⟩ := bind_eq_ok_iff.1 hrestore
  cases hrestore
  refine ⟨currentHeight - (History.new setting).oldLimit, ?_⟩
  unfold StoredData.oldFrom at hold
  dsimp only at hold
  split at hold
  · cases hold
    dsimp only
    rw [Ring.toList_ofList]
    show ((h.old.toList.map fun q => StoredQuorums.of q.height q.quorums).filter _).map _ = _
    rw [List.filter_map, List.map_map]
    refine (List.map_congr_left fun e _ => ?_).trans (List.map_id _)
    show (⟨e.height, (StoredQuorums.of e.height e.quorums).quorums⟩ : QuorumsAt) = e
    rw [StoredQuorums.quorums_of]
  · cases hold

/-- A history in order is restored in order. -/
theorem Ordered.restore (hh : h.Ordered head.height)
    (hrestore : restore ctx (some h.longTerm) (h.shortTerm head) currentHeight setting =
      .ok restored) : restored.history.Ordered restored.head.height := by
  have hkeyed : h.Keyed :=
    ⟨fun k r hr => (hh.recent k r hr).1, fun k r hr => (hh.archive k r hr).1⟩
  obtain ⟨hhead, hrecent, harchive⟩ := restore_eq_ok hkeyed hrestore
  obtain ⟨lowest, hold⟩ := old_of_restore hrestore
  have hheight : restored.head.height = head.height := by rw [hhead, (head.quorums_restored _ _).1]
  -- What is recent now was recent, at the same height.
  have hearlier : ∀ k r, restored.history.recent.get? k = some r →
      ∃ r', h.recent.get? k = some r' ∧ r.height = r'.height := by
    intro k r hr
    rw [hrecent, SortedMap.get?_mapValues, SortedMap.get?_filter] at hr
    obtain ⟨r', hr', rfl⟩ := Option.map_eq_some_iff.1 hr
    exact ⟨r', (Option.filter_eq_some_iff.1 hr').1, (r'.quorums_restored _ _).1⟩
  rw [hheight]
  refine ⟨fun k r hr => ?_, fun k r hr => ?_, ?_, fun e he => ?_⟩
  · obtain ⟨r', hr', hsame⟩ := hearlier k r hr
    rw [hsame]
    exact hh.recent k r' hr'
  · rw [harchive, SortedMap.get?_mapValues] at hr
    obtain ⟨r', hr', rfl⟩ := Option.map_eq_some_iff.1 hr
    exact hh.archive k r' hr'
  · rw [hold]
    exact hh.ascending.sublist (List.filter_sublist.map _)
  · rw [hold] at he
    have hbelow := hh.old e (List.mem_of_mem_filter he)
    refine ⟨hbelow.1, fun k r hr => ?_⟩
    obtain ⟨r', hr', -⟩ := hearlier k r hr
    exact hbelow.2 k r' hr'

/-- Of the recent registries those up to the limit are restored with their quorums, and of the
archived ones all. -/
theorem at?_restore (hkeyed : h.Keyed)
    (hrestore : restore ctx (some h.longTerm) (h.shortTerm head) currentHeight setting =
      .ok restored) (height : Nat) :
    (restored.history.at? height).bind (·.quorums.obligations) =
      ((if height ≤ maxShortTerm head.height then h.recent.get? height else none).or
        (h.archive.get? height)).bind (·.quorums.obligations) := by
  obtain ⟨-, hrecent, harchive⟩ := restore_eq_ok hkeyed hrestore
  have hfiltered : (h.recent.filter fun k _ => decide (k ≤ maxShortTerm head.height)).get? height =
      if height ≤ maxShortTerm head.height then h.recent.get? height else none := by
    rw [SortedMap.get?_filter]
    cases h.recent.get? height <;> simp [Option.filter]
  unfold at?
  rw [hrecent, harchive, SortedMap.get?_mapValues, SortedMap.get?_mapValues, hfiltered]
  cases (if height ≤ maxShortTerm head.height then h.recent.get? height else none) with
  | some r =>
      have hsame := (r.quorums_restored (decide (height < maxShortTerm head.height)) ctx).2
      show ((r.stored _).registry ctx).quorums.obligations = r.quorums.obligations
      rw [hsame]
  | none =>
      cases h.archive.get? height with
      | some r =>
          have hsame := (r.quorums_restored false ctx).2
          show ((r.stored false).registry ctx).quorums.obligations = r.quorums.obligations
          rw [hsame]
      | none => rfl

/-- A restored view has the same obligations quorums on record, but none for the heights that
the snapshot left out. -/
theorem obligations?_restore (hkeyed : h.Keyed)
    (hgap : ∀ k, LeftOut head.height k → h.archive.get? k = none)
    (habove : ∀ k, head.height < k → h.at? k = none)
    (hrestore : restore ctx (some h.longTerm) (h.shortTerm head) currentHeight setting =
      .ok restored) (height : Nat) :
    (HistoryView.of restored.head restored.history).obligations? height =
      if LeftOut head.height height then none
      else (HistoryView.of head h).obligations? height := by
  obtain ⟨hhead, -, -⟩ := restore_eq_ok hkeyed hrestore
  obtain ⟨hplace, hquorums⟩ := head.quorums_restored false ctx
  rw [HistoryView.obligations?_of, HistoryView.obligations?_of, hhead, hplace, hquorums]
  by_cases heq : head.height = height
  · have hkept : ¬ LeftOut head.height height := by
      unfold LeftOut
      omega
    rw [if_pos heq, if_neg hkept, if_pos heq]
  · rw [if_neg heq, if_neg heq, at?_restore hkeyed hrestore]
    -- Up to the limit the recent registries are stored; beyond it only the archive is left.
    by_cases hlimit : height ≤ maxShortTerm head.height
    · have hkept : ¬ LeftOut head.height height := by
        unfold LeftOut
        omega
      rw [if_pos hlimit, if_neg hkept, at?]
    · rw [if_neg hlimit, Option.none_or]
      by_cases hout : LeftOut head.height height
      · rw [if_pos hout, hgap height hout]
        rfl
      · -- Above the head nothing is on record, before and after.
        have hhigh : head.height < height := by
          unfold LeftOut at hout
          omega
        have hnone := habove height hhigh
        rw [if_neg hout, hnone]
        unfold at? at hnone
        rw [(Option.or_eq_none_iff.1 hnone).2]

end History

end StakeRegistry
