import StakeRegistry.Proofs.Swarm.Settling
import StakeRegistry.Proofs.Transition.Swarms

/-!
# Swarms at rest stay as they are

A rebalancing changes nothing in swarms that have come to rest, whatever its seed. A registry lists
the members of its swarms in another order than a rebalancing has left them in, and leaves out
swarms without members; neither matters to whether they are at rest. Main statements:

* `SwarmMap.AtRest.rebalance_eq`: swarms at rest are left alone;
* `Registry.atRest_rebalanceSwarms`: a registry's swarms are at rest once it has been rebalanced;
* `Registry.rebalance_rebalance`: a second rebalancing moves no node, unless nodes have become
  active, are active no more, or are in other swarms.
-/

set_option autoImplicit false

namespace StakeRegistry

open scoped List

/-! ## Swarms at rest -/

namespace SwarmMap

variable {swarms swarms' : SwarmMap}

namespace AtRest

theorem assign_eq (h : swarms.AtRest) (g : Twister) : (swarms.assign g).1 = swarms := by
  have hfree : unassignedSwarm ∉ swarms.keys := fun hmem =>
    Nat.lt_irrefl _ (h.numbered _ hmem)
  have hnone : swarms.get? unassignedSwarm = none :=
    Option.eq_none_iff_forall_not_mem.2 fun ms hms => hfree (SortedMap.mem_keys.2 ⟨ms, hms⟩)
  obtain ⟨nodes, hnodes, heq⟩ := SwarmMap.assign_eq swarms g
  rw [hnone, Option.getD_none, List.perm_nil] at hnodes
  rw [heq, hnodes]
  simp [joinedBy, erase_of_not_mem hfree]

theorem foundSwarms_eq (h : swarms.AtRest) (rounds : Nat) (g : Twister) :
    foundSwarms rounds swarms g = (swarms, g) := by
  cases rounds with
  | zero => rfl
  | succ rounds => rw [foundSwarms, if_pos h.surplus]

theorem mend_eq (h : swarms.AtRest) (rounds : Nat) (g : Twister) :
    mend rounds swarms g = (swarms, g) := by
  cases rounds with
  | zero => rfl
  | succ rounds =>
      rw [mend]
      split
      · rfl
      · rename_i hseveral
        have hlarge := h.balanced.resolve_left hseveral
        have hnone : swarms.undersized? = none :=
          minOn?_eq_none_iff.2 (List.filter_eq_nil_iff.2 fun s hs => by simpa using hlarge s hs)
        rw [hnone]

/-- Swarms at rest are left alone. -/
theorem rebalance_eq (h : swarms.AtRest) (seed : Nat) : swarms.rebalance seed = swarms := by
  unfold rebalance
  dsimp only
  rw [h.assign_eq, h.foundSwarms_eq, h.mend_eq]

end AtRest

/-- Swarms that are no larger than others of the same numbers have no larger surplus. -/
theorem sum_surplus_le (swarms : SwarmMap) {listed : List (Nat × List PublicKey)}
    (honce : (listed.map (·.1)).Nodup)
    (h : ∀ s ∈ listed, ∃ ms, swarms.get? s.1 = some ms ∧ s.2.length = ms.length) :
    (listed.map fun s => s.2.length - idealSwarmSize).sum ≤ swarms.surplus := by
  induction listed generalizing swarms with
  | nil => exact Nat.zero_le _
  | cons s listed ih =>
      obtain ⟨hfresh, honce⟩ := List.nodup_cons.1 honce
      obtain ⟨ms, hms, hlength⟩ := h s List.mem_cons_self
      have hrest := ih (swarms.erase s.1) honce fun s' hs' => by
        have hne : s'.1 ≠ s.1 := fun heq => hfresh (List.mem_map.2 ⟨s', hs', heq⟩)
        rw [SortedMap.get?_erase, if_neg hne]
        exact h s' (List.mem_cons_of_mem s hs')
      rw [List.map_cons, List.sum_cons, surplus_of_get? hms, hlength]
      exact Nat.add_le_add_left hrest _

/-- Whether swarms are at rest is a matter of their numbers and sizes. -/
theorem AtRest.of_sizes (h : swarms.AtRest) (hsizes : ∀ id ms, swarms'.get? id = some ms →
    ∃ ms', swarms.get? id = some ms' ∧ ms.length = ms'.length) : swarms'.AtRest := by
  have hkeys : swarms'.keys ⊆ swarms.keys := fun id hid => by
    obtain ⟨ms, hms⟩ := SortedMap.mem_keys.1 hid
    obtain ⟨ms', hms', -⟩ := hsizes id ms hms
    exact SortedMap.mem_keys.2 ⟨ms', hms'⟩
  have hlisted : ∀ s ∈ swarms'.toList, ∃ ms, swarms.get? s.1 = some ms ∧ s.2.length = ms.length :=
    fun s hs => hsizes s.1 s.2 (SortedMap.get?_eq_some_iff.2 hs)
  refine ⟨fun id hid => h.numbered id (hkeys hid), ?_, ?_⟩
  · refine h.balanced.imp (fun hone => ?_) fun hlarge s hs => ?_
    · rw [size_eq_length_keys] at hone ⊢
      exact Nat.le_trans (List.subperm_of_subset swarms'.nodup_keys hkeys).length_le hone
    · obtain ⟨ms, hms, hlength⟩ := hlisted s hs
      exact hlength ▸ hlarge _ (SortedMap.get?_eq_some_iff.1 hms)
  · have hsurplus := sum_surplus_le swarms swarms'.nodup_keys hlisted
    unfold SwarmMap.surplus SortedMap.values
    rw [List.map_map]
    exact Nat.lt_of_le_of_lt hsurplus h.surplus

end SwarmMap

/-! ## The swarms of a registry -/

namespace Registry

variable {r r' : Registry} {swarms : SwarmMap}

/-- The swarm of a number lists the active nodes in it. -/
theorem get?_foldl_enlist (active : NodeList) (swarms : SwarmMap) (id : Nat) :
    (SortedMap.get? (active.foldl enlist swarms) id).getD [] =
      (swarms.get? id).getD [] ++ NodeList.keys (active.filter fun n => n.2.swarm == id) := by
  induction active generalizing swarms with
  | nil => exact (List.append_nil _).symm
  | cons n active ih =>
      rw [List.foldl_cons, ih, enlist, SortedMap.get?_insert]
      by_cases hid : id = n.2.swarm
      · subst hid
        have hin : (n.2.swarm == n.2.swarm) = true := beq_self_eq_true _
        rw [if_pos rfl, Option.getD_some, List.append_assoc, List.filter_cons, if_pos hin]
        rfl
      · rw [if_neg hid, List.filter_cons_of_neg (by simpa using Ne.symm hid)]

theorem get?_swarms {active : NodeList} {id : Nat} {ms : List PublicKey}
    (h : (Registry.swarms active).get? id = some ms) :
    ms = NodeList.keys (active.filter fun n => n.2.swarm == id) := by
  have hlisted := get?_foldl_enlist active ∅ id
  rw [← swarms_eq, h] at hlisted
  exact hlisted

/-- A registry that nodes have been assigned in lists the same nodes for each swarm. -/
theorem perm_of_get?_assigned (hmembers : swarms.members.Perm r.active.keys) {id : Nat}
    {ms : List PublicKey}
    (h : (Registry.swarms (r.assignSwarms swarms).active).get? id = some ms) :
    ∃ ms', swarms.get? id = some ms' ∧ ms.Perm ms' := by
  obtain ⟨n, hn, rfl⟩ := exists_of_mem_keys_swarms (SortedMap.mem_keys.2 ⟨ms, h⟩)
  obtain ⟨ms', hms'⟩ := exists_of_mem_assigned hmembers (List.mem_map_of_mem hn)
  refine ⟨ms', hms', ?_⟩
  have hkeys := (SameActive.assignSwarms r swarms).keys_perm
  have hsplit := (SwarmMap.members_perm swarms n.2.swarm).nodup_iff.1 (nodup_members hmembers)
  rw [hms', Option.getD_some] at hsplit
  rw [get?_swarms h]
  refine (List.perm_ext_iff_of_nodup ?_ (List.nodup_append.1 hsplit).1).2 fun key => ?_
  · exact ((List.filter_sublist.map _).nodup
      ((r.assignSwarms swarms).nodup_keys_select (·.isActive)))
  constructor
  · intro hkey
    obtain ⟨n', hn', rfl⟩ := List.mem_map.1 hkey
    obtain ⟨hactive, hswarm⟩ := List.mem_filter.1 hn'
    obtain ⟨id, ms'', hid, hin⟩ := mem_members.1
      (hmembers.symm.subset (hkeys.subset (List.mem_map_of_mem hactive)))
    have hsame := swarm_of_mem hmembers hid hactive hin
    rw [← hsame, beq_iff_eq.1 hswarm, hms'] at hid
    exact Option.some.inj hid ▸ hin
  · intro hkey
    obtain ⟨n', hn', rfl⟩ := List.mem_map.1
      (hkeys.symm.subset (hmembers.subset (mem_members.2 ⟨_, ms', hms', hkey⟩)))
    exact List.mem_map_of_mem
      (List.mem_filter.2 ⟨hn', beq_iff_eq.2 (swarm_of_mem hmembers hms' hn' hkey)⟩)

theorem SameSwarms.swarms_eq (h : r.SameSwarms r') :
    Registry.swarms r'.active = Registry.swarms r.active := by
  have hfold : ∀ active : NodeList, Registry.swarms active =
      (active.map fun n => (n.1, n.2.swarm)).foldl
        (fun swarms p => swarms.insert p.2 ((swarms.get? p.2).getD [] ++ [p.1])) ∅ :=
    fun active => by rw [List.foldl_map, Registry.swarms_eq]; rfl
  rw [hfold, hfold, h.groups_eq]

theorem place_self {p : PublicKey × Nat} (h : (r.info? p.1).map (·.swarm) = some p.2) :
    r.place p = r := by
  obtain ⟨info, hinfo, hswarm⟩ := Option.map_eq_some_iff.1 h
  have hnodes : r.nodes.insert p.1 info = r.nodes := SortedMap.ext_get? fun key => by
    rw [SortedMap.get?_insert]
    split
    · rename_i hkey
      rw [hkey]
      exact hinfo.symm
    · rfl
  unfold place modify
  unfold info? at hinfo
  rw [hinfo]
  dsimp only
  rw [← hswarm, hnodes]

theorem foldl_place_self {placed : List (PublicKey × Nat)}
    (h : ∀ p ∈ placed, (r.info? p.1).map (·.swarm) = some p.2) : placed.foldl place r = r := by
  induction placed with
  | nil => rfl
  | cons p placed ih =>
      rw [List.foldl_cons, place_self (h p List.mem_cons_self)]
      exact ih fun p' hp' => h p' (List.mem_cons_of_mem p hp')

/-- Nodes that are put where they are stay there. -/
theorem assignSwarms_self (r : Registry) : r.assignSwarms (Registry.swarms r.active) = r := by
  rw [assignSwarms_eq]
  refine foldl_place_self ?_
  rintro ⟨key, id⟩ hp
  obtain ⟨ms, hms, hkey⟩ := mem_placements.1 hp
  rw [get?_swarms hms] at hkey
  obtain ⟨n, hn, rfl⟩ := List.mem_map.1 hkey
  obtain ⟨hactive, hswarm⟩ := List.mem_filter.1 hn
  rw [show r.info? n.1 = some n.2 from
    SortedMap.get?_eq_some_iff.2 (List.mem_filter.1 hactive).1]
  exact congrArg some (beq_iff_eq.1 hswarm)

/-- A registry's swarms are at rest once it has been rebalanced. -/
theorem atRest_rebalanceSwarms (hids : ∀ n ∈ r.active, n.2.swarm ≤ unassignedSwarm)
    (hfew : (Registry.swarms r.active).size + r.active.length < 2 ^ 63) (block : Block) :
    (Registry.swarms (r.rebalanceSwarms block).active).AtRest := by
  have hkeys : ∀ id ∈ (Registry.swarms r.active).keys, id ≤ unassignedSwarm := fun id hid => by
    obtain ⟨n, hn, rfl⟩ := exists_of_mem_keys_swarms hid
    exact hids n hn
  have hmembers := members_swarms r.active
  have hlength : (Registry.swarms r.active).members.length = r.active.length := by
    rw [hmembers.length_eq, NodeList.length_keys]
  have hrest := SwarmMap.atRest_rebalance hkeys (hlength.symm ▸ hfew)
    (leNat (block.hash.toList.take 8))
  refine hrest.of_sizes fun id ms hms => ?_
  obtain ⟨ms', hms', hperm⟩ := perm_of_get?_assigned
    ((SwarmMap.members_rebalance _ _).trans hmembers) hms
  exact ⟨ms', hms', hperm.length_eq⟩

theorem rebalanceSwarms_of_atRest (h : (Registry.swarms r.active).AtRest) (block : Block) :
    r.rebalanceSwarms block = r := by
  rw [rebalanceSwarms, h.rebalance_eq, assignSwarms_self]

/-- A penalty for a changed address leaves every node in its swarm. -/
theorem sameSwarms_penalise {d : Draft} {key : PublicKey} {info : NodeInfo}
    (hinfo : d.registry.info? key = some info) (block : Block) :
    d.registry.SameSwarms (d.penalise block key info).registry :=
  .put (activeSwarm?_of_info hinfo).symm

/-- **Rebalancing twice is rebalancing once.** Under whichever seed swarms are rebalanced for the
second time, they stay as they are. A registry whose swarms have been rebalanced is left as it is
by another rebalancing, and so is one that has come out of it with the same active nodes in the
same swarms. -/
theorem rebalance_rebalance :
    (∀ swarms : SwarmMap, (∀ id ∈ swarms.keys, id ≤ unassignedSwarm) →
      swarms.size + swarms.members.length < 2 ^ 63 → ∀ seed seed' : Nat,
        (swarms.rebalance seed).rebalance seed' = swarms.rebalance seed) ∧
      ∀ r : Registry, (∀ n ∈ r.active, n.2.swarm ≤ unassignedSwarm) →
        (Registry.swarms r.active).size + r.active.length < 2 ^ 63 →
        ∀ (block block' : Block) (r' : Registry), (r.rebalanceSwarms block).SameSwarms r' →
          r'.rebalanceSwarms block' = r' := by
  refine ⟨fun swarms hids hfew seed seed' => ?_, fun r hids hfew block block' r' hsame => ?_⟩
  · exact (SwarmMap.atRest_rebalance hids hfew seed).rebalance_eq seed'
  · refine rebalanceSwarms_of_atRest ?_ block'
    rw [hsame.swarms_eq]
    exact atRest_rebalanceSwarms hids hfew block

/-- Thirteen active nodes in one swarm, and a fourteenth without a swarm. -/
def thirteenAndOne : Registry :=
  { new 30 with
    nodes := (List.range 14).foldl (fun nodes i => nodes.insert (.writing (i + 1))
      { (default : NodeInfo) with swarm := if i < 13 then 3 else unassignedSwarm }) ∅ }

/-- Half of them move to a new swarm. After a penalty nobody moves again, though the next block
has another hash. -/
theorem rebalance_rebalance_thirteenAndOne :
    let settled := thirteenAndOne.rebalanceSwarms (.plain 31 .v19)
    settled.activeSwarms.count 3 = 7 ∧
      (∃ info, settled.info? (.writing 1) = some info ∧
        let penalised :=
          (Draft.penalise (.plain 32 .v19) (.writing 1) info { registry := settled }).registry
        penalised.rebalanceSwarms { Block.plain 32 .v19 with hash := .writing 9 } = penalised) ∧
      (SwarmMap.newcomer.rebalance 5).rebalance 6 = SwarmMap.newcomer.rebalance 5 := by
  obtain ⟨hswarms, hregistry⟩ := rebalance_rebalance
  obtain ⟨info, hinfo, hmoved⟩ := (Option.any_eq_true _ _).1 (show
    ((thirteenAndOne.rebalanceSwarms (.plain 31 .v19)).info? (.writing 1)).any (fun _ => decide
      ((thirteenAndOne.rebalanceSwarms (.plain 31 .v19)).activeSwarms.count 3 = 7)) = true by
    decide +kernel)
  refine ⟨of_decide_eq_true hmoved, ⟨info, hinfo, ?_⟩,
    hswarms _ (by decide +kernel) (by decide +kernel) 5 6⟩
  exact hregistry thirteenAndOne (by decide +kernel) (by decide +kernel) _ _ _
    (@sameSwarms_penalise { registry := _ } _ info hinfo _)

end Registry

end StakeRegistry
