import StakeRegistry.Proofs.Stored.Reopening

/-!
# Reading old stored data once

Whatever is read of a stored registry is in a form that reading leaves alone: its entries are in
the current layout, each node has one, the kinds of quorums have a slot each, and a block hash that
is still missing is one that the chain does not know. So reading upgrades once, and what was read
can be stored and read again as often as one likes. Main statement:
`StoredState.registry_upgrades_once`.
-/

set_option autoImplicit false

namespace StakeRegistry

/-- The same entry, but for its layout and the fields that older layouts have not. -/
def NodeInfo.SameButUpgraded (old info : NodeInfo) : Prop :=
  { info with
    version := old.version
    registrationFork := old.registrationFork
    recommissionCredit := old.recommissionCredit
    pulseSorter := old.pulseSorter } = old

theorem NodeInfo.sameButUpgraded_upgrade (info : NodeInfo) (forkAt : Nat → HardFork) :
    info.SameButUpgraded (info.upgrade forkAt) := rfl

namespace StoredState

/-- The last entry that is stored for a node. -/
def lastEntry? (s : StoredState) (key : PublicKey) : Option NodeInfo :=
  (s.nodes.filter (·.1 = key)).getLast?.map (·.2)

theorem mem_of_lastEntry? {s : StoredState} {key : PublicKey} {info : NodeInfo}
    (h : s.lastEntry? key = some info) : (key, info) ∈ s.nodes := by
  obtain ⟨⟨key', info'⟩, hlast, rfl⟩ := Option.map_eq_some_iff.1 h
  obtain ⟨hmem, hkey⟩ := List.mem_filter.1 (List.mem_of_getLast? hlast)
  obtain rfl : key' = key := of_decide_eq_true hkey
  exact hmem

variable (s : StoredState) (ctx : LoadContext)

/-- The entry that is read for a node is the last one that is stored for it, brought up to the
current layout. -/
theorem info?_registry (key : PublicKey) :
    (s.registry ctx).info? key = (s.lastEntry? key).map (·.upgrade ctx.forkAt) := by
  show (SortedMap.ofList (s.nodes.map fun n => (n.1, n.2.upgrade ctx.forkAt))).get? key = _
  rw [SortedMap.get?_ofList, List.filter_map, List.getLast?_map, Option.map_map, lastEntry?,
    Option.map_map]
  rfl

/-- A hash that is missing after the chain was asked is one that the chain does not know. -/
theorem unknown_of_hashIn (h : s.hashIn ctx = 0) : (ctx.blockHashAt? s.height).getD 0 = 0 := by
  unfold hashIn at h
  split at h
  case isTrue => exact h
  case isFalse hkept => exact absurd (.inr h) hkept

/-- The hash of what was read is the same when it is stored and read again. -/
theorem hashIn_stored_registry :
    ((s.registry ctx).stored false).hashIn ctx = (s.registry ctx).blockHash := by
  show (if stateVersion = hashlessStateVersion ∨ s.hashIn ctx = 0 then
    (ctx.blockHashAt? s.height).getD 0 else s.hashIn ctx) = s.hashIn ctx
  split
  case isTrue hmissing =>
    have hzero := hmissing.resolve_left (by decide)
    rw [s.unknown_of_hashIn ctx hzero, hzero]
  case isFalse => rfl

end StoredState

/-- **Loading**: of every node the last of its stored entries is read, whatever its layout, and
brought up to the current one; nothing else of it is changed than the fields that older layouts
have not. Stored again and read in the same surroundings, what was read is the same. -/
theorem StoredState.registry_upgrades_once (s : StoredState) (ctx : LoadContext) :
    (∀ key, (s.registry ctx).info? key = (s.lastEntry? key).map (·.upgrade ctx.forkAt)) ∧
      (∀ key info, (s.registry ctx).info? key = some info →
        info.version = InfoVersion.current ∧
          ∃ old, (key, old) ∈ s.nodes ∧ old.SameButUpgraded info) ∧
      ((s.registry ctx).stored false).registry ctx = s.registry ctx := by
  refine ⟨s.info?_registry ctx, fun key info hinfo => ⟨?_, ?_⟩, ?_⟩
  · exact s.isCurrent_registry ctx key info hinfo
  · rw [s.info?_registry ctx] at hinfo
    obtain ⟨old, hlast, rfl⟩ := Option.map_eq_some_iff.1 hinfo
    exact ⟨old, mem_of_lastEntry? hlast, old.sameButUpgraded_upgrade ctx.forkAt⟩
  · exact Registry.restored_of_hashIn (s.isCurrent_registry ctx) (s.hashIn_stored_registry ctx)

/-- Data from before hashes were stored: two entries of one node, the later in the oldest layout,
and no quorums. -/
def hashlessState : StoredState where
  version := hashlessStateVersion
  height := 4
  nodes := [(.writing 1, { version := 6, registrationHeight := 3 }),
    (.writing 1, { version := 0, registrationHeight := 2, decommissionCount := 1 })]
  blacklist := []
  quorums := ⟨0, 4, []⟩
  quorumsOnly := false
  blockHash := 0

/-- The later entry is read, with the fork of its registration and without credit, since the node
was decommissioned and came back. -/
theorem StoredState.registry_upgrades_once_hashless :
    (hashlessState.registry History.bareChain).info? (.writing 1) =
        some {
          registrationFork := .v21
          registrationHeight := 2
          decommissionCount := 1
          recommissionCredit := 0 } ∧
      ((hashlessState.registry History.bareChain).stored false).registry History.bareChain =
        hashlessState.registry History.bareChain := by
  obtain ⟨hentries, -, hagain⟩ := hashlessState.registry_upgrades_once History.bareChain
  exact ⟨(hentries (.writing 1)).trans (by decide), hagain⟩

end StakeRegistry
