import StakeRegistry.Proofs.Swarm.Balancing
import StakeRegistry.Proofs.Transition.Moves
import StakeRegistry.Proofs.Transition.Sorters
import StakeRegistry.Proofs.Transition.Turns

/-!
# The swarms of the active nodes

A block rebalances the swarms if its draft says so, and a transaction that changes who is active
or in which swarm always says so, unless it comes from the bridge (`Draft.KeepsSwarms`). What a
rebalancing establishes therefore holds after every block. Main statements:

* `Registry.inSwarms_rebalanceSwarms`: a rebalancing puts every active node into a swarm, and
  into one of several only if these are large enough;
* `Registry.Arises.inSwarms`: without the bridge, every registry that arises is so.
-/

set_option autoImplicit false

namespace StakeRegistry

open scoped List

/-- The swarm of a node, if it is active. -/
def NodeInfo.activeSwarm? (info : NodeInfo) : Option Nat :=
  if info.isActive then some info.swarm else none

namespace Registry

/-- The swarm of every active node. -/
def activeSwarms (r : Registry) : List Nat := r.active.map (·.2.swarm)

/-- Every active node has a swarm, and if they are in several then each of these has members
enough. -/
structure InSwarms (r : Registry) : Prop where
  assigned : ∀ id ∈ r.activeSwarms, id ≠ unassignedSwarm
  grouped : (∀ id ∈ r.activeSwarms, ∀ id' ∈ r.activeSwarms, id = id') ∨
    ∀ id ∈ r.activeSwarms, minSwarmSize ≤ r.activeSwarms.count id

/-- The swarm of a node, if it is active. -/
def activeSwarm? (r : Registry) (key : PublicKey) : Option Nat :=
  (r.info? key).bind NodeInfo.activeSwarm?

/-- Both registries have the same active nodes, in the same swarms. -/
def SameSwarms (r r' : Registry) : Prop := ∀ key, r'.activeSwarm? key = r.activeSwarm? key

theorem SameSwarms.groups_eq {r r' : Registry} (h : r.SameSwarms r') :
    (r'.active.map fun n => (n.1, n.2.swarm)) = r.active.map fun n => (n.1, n.2.swarm) := by
  have hlook : ∀ (s : Registry) key, ((s.nodes.filter fun _ info => info.isActive).mapValues
      fun _ info => info.swarm).get? key = s.activeSwarm? key := by
    intro s key
    rw [SortedMap.get?_mapValues, SortedMap.get?_filter]
    unfold activeSwarm? NodeInfo.activeSwarm? info?
    cases s.nodes.get? key with
    | none => rfl
    | some info => by_cases hactive : info.isActive = true <;> simp [hactive]
  have hmap := SortedMap.ext_get? fun key => (hlook r' key).trans ((h key).trans (hlook r key).symm)
  exact congrArg SortedMap.toList hmap

theorem SameSwarms.activeSwarms_eq {r r' : Registry} (h : r.SameSwarms r') :
    r'.activeSwarms = r.activeSwarms := by
  have hgroups := congrArg (List.map (·.2)) h.groups_eq
  rwa [List.map_map, List.map_map] at hgroups

theorem InSwarms.congr {r r' : Registry} (h : r.InSwarms) (hsame : r.SameSwarms r') :
    r'.InSwarms := by
  obtain ⟨hassigned, hgrouped⟩ := h
  rw [← hsame.activeSwarms_eq] at hassigned hgrouped
  exact ⟨hassigned, hgrouped⟩

/-! ## Nodes grouped by their swarms -/

/-- Lists one node under its swarm. -/
def enlist (swarms : SwarmMap) (n : PublicKey × NodeInfo) : SwarmMap :=
  swarms.insert n.2.swarm ((swarms.get? n.2.swarm).getD [] ++ [n.1])

theorem swarms_eq (active : NodeList) : swarms active = active.foldl enlist ∅ := rfl

theorem members_enlist (swarms : SwarmMap) (n : PublicKey × NodeInfo) :
    (enlist swarms n).members.Perm (n.1 :: swarms.members) := by
  have hinserted := SwarmMap.members_insert swarms n.2.swarm
    ((swarms.get? n.2.swarm).getD [] ++ [n.1])
  rw [List.append_assoc, List.singleton_append] at hinserted
  have hlisted := SwarmMap.members_perm swarms n.2.swarm
  calc (enlist swarms n).members
    _ ~ (swarms.get? n.2.swarm).getD [] ++ n.1 :: SwarmMap.members (swarms.erase n.2.swarm) :=
      hinserted
    _ ~ n.1 :: ((swarms.get? n.2.swarm).getD [] ++ SwarmMap.members (swarms.erase n.2.swarm)) :=
      List.perm_middle
    _ ~ n.1 :: swarms.members := hlisted.symm.cons n.1

theorem members_foldl_enlist (active : NodeList) (swarms : SwarmMap) :
    (SwarmMap.members (active.foldl enlist swarms)).Perm (active.keys ++ swarms.members) := by
  induction active generalizing swarms with
  | nil => exact .refl _
  | cons n active ih =>
      calc SwarmMap.members (active.foldl enlist (enlist swarms n))
        _ ~ NodeList.keys active ++ (enlist swarms n).members := ih _
        _ ~ NodeList.keys active ++ n.1 :: swarms.members := (members_enlist swarms n).append_left _
        _ ~ n.1 :: (NodeList.keys active ++ swarms.members) := List.perm_middle

/-- Whoever is listed is a member of a swarm, and nobody else is. -/
theorem members_swarms (active : NodeList) : (swarms active).members.Perm active.keys := by
  have hlisted := members_foldl_enlist active ∅
  rwa [show SwarmMap.members ∅ = [] from rfl, List.append_nil, ← swarms_eq] at hlisted

theorem mem_keys_foldl_enlist {active : NodeList} {swarms : SwarmMap} {id : Nat}
    (h : id ∈ SortedMap.keys (active.foldl enlist swarms)) :
    id ∈ swarms.keys ∨ ∃ n ∈ active, n.2.swarm = id := by
  induction active generalizing swarms with
  | nil => exact .inl h
  | cons n active ih =>
      rcases ih h with hlisted | ⟨n', hn', hid⟩
      · rcases SwarmMap.mem_keys_insert.1 hlisted with rfl | hkept
        · exact .inr ⟨n, List.mem_cons_self, rfl⟩
        · exact .inl hkept
      · exact .inr ⟨n', List.mem_cons_of_mem n hn', hid⟩

theorem exists_of_mem_keys_swarms {active : NodeList} {id : Nat}
    (h : id ∈ (swarms active).keys) : ∃ n ∈ active, n.2.swarm = id :=
  (mem_keys_foldl_enlist h).resolve_left List.not_mem_nil

/-! ## Nodes put into their swarms -/

/-- The nodes with the swarms that a map puts them into. -/
def placements (swarms : SwarmMap) : List (PublicKey × Nat) :=
  swarms.toList.flatMap fun s => s.2.map fun key => (key, s.1)

theorem placements_keys (swarms : SwarmMap) :
    (placements swarms).map (·.1) = swarms.members := by
  unfold placements SwarmMap.members SortedMap.values
  rw [List.map_flatMap, ← List.flatMap_def]
  simp only [List.map_map, Function.comp_def, List.map_id']

theorem mem_placements {swarms : SwarmMap} {key : PublicKey} {id : Nat} :
    (key, id) ∈ placements swarms ↔ ∃ ms, swarms.get? id = some ms ∧ key ∈ ms := by
  unfold placements
  simp only [List.mem_flatMap, List.mem_map, SortedMap.get?_eq_some_iff, Prod.exists,
    Prod.mk.injEq]
  constructor
  · rintro ⟨_, ms, hmem, _, hkey, rfl, rfl⟩
    exact ⟨ms, hmem, hkey⟩
  · rintro ⟨ms, hmem, hkey⟩
    exact ⟨id, ms, hmem, key, hkey, rfl, rfl⟩

/-- Puts one node into a swarm. -/
def place (r : Registry) (p : PublicKey × Nat) : Registry :=
  r.modify p.1 fun info => { info with swarm := p.2 }

theorem assignSwarms_eq (r : Registry) (swarms : SwarmMap) :
    r.assignSwarms swarms = (placements swarms).foldl place r := by
  unfold assignSwarms placements
  rw [List.foldl_flatMap]
  congr 1
  funext r s
  rw [List.foldl_map]
  rfl

theorem info?_place_of_ne (r : Registry) {p : PublicKey × Nat} {key : PublicKey}
    (h : key ≠ p.1) : (r.place p).info? key = r.info? key := by
  rw [place, info?_modify, if_neg h]

theorem info?_foldl_place_of_not_mem (r : Registry) {key : PublicKey}
    (placed : List (PublicKey × Nat)) (h : key ∉ placed.map (·.1)) :
    (placed.foldl place r).info? key = r.info? key := by
  induction placed generalizing r with
  | nil => rfl
  | cons p placed ih =>
      rw [List.map_cons, List.mem_cons, not_or] at h
      exact (ih _ h.2).trans (info?_place_of_ne r h.1)

/-- A node that is placed once is in that swarm. -/
theorem info?_foldl_place (r : Registry) {key : PublicKey} {id : Nat}
    {placed : List (PublicKey × Nat)} (honce : (placed.map (·.1)).Nodup)
    (h : (key, id) ∈ placed) :
    (placed.foldl place r).info? key = (r.info? key).map fun info => { info with swarm := id } := by
  induction placed generalizing r with
  | nil => cases h
  | cons p placed ih =>
      obtain ⟨hfresh, honce⟩ := List.nodup_cons.1 honce
      rw [List.foldl_cons]
      rcases List.mem_cons.1 h with rfl | h
      · rw [info?_foldl_place_of_not_mem _ placed hfresh, place, info?_modify, if_pos rfl]
      · rw [ih _ honce h, info?_place_of_ne]
        rintro rfl
        exact hfresh (List.mem_map.2 ⟨_, h, rfl⟩)

section Assigned

variable {r : Registry} {swarms : SwarmMap}

theorem info?_assignSwarms (honce : swarms.members.Nodup) {id : Nat} {ms : List PublicKey}
    (hid : swarms.get? id = some ms) {key : PublicKey} (hkey : key ∈ ms) :
    (r.assignSwarms swarms).info? key =
      (r.info? key).map fun info => { info with swarm := id } := by
  rw [assignSwarms_eq]
  exact info?_foldl_place r (placements_keys swarms ▸ honce) (mem_placements.2 ⟨ms, hid, hkey⟩)

theorem nodup_members (hmembers : swarms.members.Perm r.active.keys) : swarms.members.Nodup :=
  hmembers.nodup_iff.2 (r.nodup_keys_select _)

theorem mem_members {key : PublicKey} :
    key ∈ swarms.members ↔ ∃ id ms, swarms.get? id = some ms ∧ key ∈ ms := by
  rw [← placements_keys]
  simp only [List.mem_map, Prod.exists, exists_and_right, exists_eq_right, mem_placements]

/-- An active node that a swarm lists is in that swarm. -/
theorem swarm_of_mem (hmembers : swarms.members.Perm r.active.keys) {id : Nat}
    {ms : List PublicKey} (hid : swarms.get? id = some ms) {n : PublicKey × NodeInfo}
    (hn : n ∈ (r.assignSwarms swarms).active) (hin : n.1 ∈ ms) : n.2.swarm = id := by
  have hinfo : (r.assignSwarms swarms).info? n.1 = some n.2 :=
    SortedMap.get?_eq_some_iff.2 (List.mem_filter.1 hn).1
  rw [info?_assignSwarms (nodup_members hmembers) hid hin] at hinfo
  obtain ⟨info, -, hsame⟩ := Option.map_eq_some_iff.1 hinfo
  rw [← hsame]

theorem exists_of_mem_assigned (hmembers : swarms.members.Perm r.active.keys) {id : Nat}
    (h : id ∈ (r.assignSwarms swarms).activeSwarms) : ∃ ms, swarms.get? id = some ms := by
  obtain ⟨n, hn, rfl⟩ := List.mem_map.1 h
  have hkey : n.1 ∈ (r.assignSwarms swarms).active.keys := List.mem_map_of_mem hn
  have hactive := (SameActive.assignSwarms r swarms).keys_perm.subset hkey
  obtain ⟨id, ms, hid, hin⟩ := mem_members.1 (hmembers.symm.subset hactive)
  rw [swarm_of_mem hmembers hid hn hin]
  exact ⟨ms, hid⟩

/-- Every member of a swarm is an active node in it. -/
theorem length_le_count_assigned (hmembers : swarms.members.Perm r.active.keys) {id : Nat}
    {ms : List PublicKey} (hid : swarms.get? id = some ms) :
    ms.length ≤ (r.assignSwarms swarms).activeSwarms.count id := by
  have honce : ms.Nodup := by
    have hall := (nodup_members hmembers)
    have hsplit := (SwarmMap.members_perm swarms id).nodup_iff.1 hall
    rw [hid, Option.getD_some] at hsplit
    exact (List.nodup_append.1 hsplit).1
  have hsubset : ms ⊆
      NodeList.keys ((r.assignSwarms swarms).active.filter fun n => n.2.swarm == id) := by
    intro key hkey
    have hactive : key ∈ r.active.keys := hmembers.subset (mem_members.2 ⟨id, ms, hid, hkey⟩)
    have hactive' := (SameActive.assignSwarms r swarms).keys_perm.symm.subset hactive
    obtain ⟨n, hn, rfl⟩ := List.mem_map.1 hactive'
    exact List.mem_map.2
      ⟨n, List.mem_filter.2 ⟨hn, beq_iff_eq.2 (swarm_of_mem hmembers hid hn hkey)⟩, rfl⟩
  have hlength := (List.subperm_of_subset honce hsubset).length_le
  rw [NodeList.length_keys, ← List.countP_eq_length_filter] at hlength
  rw [activeSwarms, List.count, List.countP_map]
  exact hlength

/-- What a balanced map says of its swarms holds of the nodes that it puts into them. -/
theorem inSwarms_assignSwarms (hmembers : swarms.members.Perm r.active.keys)
    (hnumbered : swarms.Numbered) (hbalanced : swarms.Balanced) :
    (r.assignSwarms swarms).InSwarms := by
  have hkeys : ∀ id ∈ (r.assignSwarms swarms).activeSwarms, id ∈ swarms.keys := fun id hid =>
    SortedMap.mem_keys.2 (exists_of_mem_assigned hmembers hid)
  refine ⟨fun id hid => Nat.ne_of_lt (hnumbered id (hkeys id hid)), ?_⟩
  rcases hbalanced with hsize | hlarge
  · rw [SwarmMap.size_eq_length_keys] at hsize
    refine .inl fun id hid id' hid' => ?_
    obtain ⟨i, hi, rfl⟩ := List.getElem_of_mem (hkeys id hid)
    obtain ⟨j, hj, rfl⟩ := List.getElem_of_mem (hkeys id' hid')
    have hfirst : i = j := by omega
    simp only [hfirst]
  · refine .inr fun id hid => ?_
    obtain ⟨ms, hms⟩ := exists_of_mem_assigned hmembers hid
    exact Nat.le_trans (hlarge (id, ms) (SortedMap.get?_eq_some_iff.1 hms))
      (length_le_count_assigned hmembers hms)

end Assigned

end Registry

/-! ## Who is active, and in which swarm -/

theorem NodeInfo.activeSwarm?_of_unfunded {info : NodeInfo} (h : info.isFullyFunded = false) :
    info.activeSwarm? = none := by
  simp [activeSwarm?, isActive, h]

namespace Registry

variable {r : Registry} {key : PublicKey}

theorem activeSwarm?_of_info {info : NodeInfo} (h : r.info? key = some info) :
    r.activeSwarm? key = info.activeSwarm? := by
  unfold activeSwarm?
  rw [h]
  rfl

namespace SameSwarms

variable {r' r'' : Registry}

theorem refl (r : Registry) : r.SameSwarms r := fun _ => rfl

theorem trans (h : r.SameSwarms r') (h' : r'.SameSwarms r'') : r.SameSwarms r'' :=
  fun key => (h' key).trans (h key)

/-- An entry may take the place of another that says the same of the node's swarm. -/
theorem put {info : NodeInfo} (h : info.activeSwarm? = r.activeSwarm? key) :
    r.SameSwarms (r.put key info) := by
  intro key'
  unfold activeSwarm? at h ⊢
  rw [info?_put]
  split
  · rename_i hkey
    rw [hkey]
    exact h
  · rfl

theorem remove (h : r.activeSwarm? key = none) : r.SameSwarms (r.remove key) := by
  intro key'
  unfold activeSwarm? at h ⊢
  rw [info?_remove]
  split
  · rename_i hkey
    rw [hkey]
    exact h.symm
  · rfl

theorem modify {f : NodeInfo → NodeInfo} (h : ∀ info, (f info).activeSwarm? = info.activeSwarm?) :
    r.SameSwarms (r.modify key f) := by
  unfold Registry.modify
  split
  · rename_i info hinfo
    exact put ((h info).trans (activeSwarm?_of_info hinfo).symm)
  · exact refl r

theorem noteTurns (r : Registry) (height : Nat) (validators : List PublicKey) :
    r.SameSwarms (r.noteTurns height validators) := by
  unfold Registry.noteTurns
  generalize validators.zipIdx = turns
  induction turns generalizing r with
  | nil => exact refl r
  | cons turn turns ih =>
      refine trans ?_ (ih _)
      exact modify fun _ => rfl

theorem formPulseQuorum (r : Registry) (ctx : Context) (block : Block) (winner : PublicKey) :
    r.SameSwarms (r.formPulseQuorum ctx block winner) := by
  unfold Registry.formPulseQuorum
  split
  · exact refl r
  · dsimp only
    split
    · exact noteTurns r block.height _
    · exact refl r

theorem trimBlacklist (r : Registry) (block : Block) :
    r.SameSwarms (r.trimBlacklist block) := by
  unfold Registry.trimBlacklist
  split <;> exact refl _

end SameSwarms

end Registry

/-! ## Whatever changes that asks for new swarms -/

namespace Draft

/-- The second draft asks for new swarms if the first does, and if it does not then both have the
same active nodes in the same swarms. -/
structure KeepsSwarms (d d' : Draft) : Prop where
  raised : d.rebalance = true → d'.rebalance = true
  same : d'.rebalance = false → d.registry.SameSwarms d'.registry

namespace KeepsSwarms

variable {d d' d'' : Draft}

theorem refl (d : Draft) : d.KeepsSwarms d := ⟨id, fun _ => .refl _⟩

theorem trans (h : d.KeepsSwarms d') (h' : d'.KeepsSwarms d'') : d.KeepsSwarms d'' := by
  refine ⟨h'.raised ∘ h.raised, fun hflag => ?_⟩
  have hflag' : d'.rebalance = false :=
    Bool.eq_false_iff.2 fun hraised => Bool.eq_false_iff.1 hflag (h'.raised hraised)
  exact (h.same hflag').trans (h'.same hflag)

theorem of_raised (h : d'.rebalance = true) : d.KeepsSwarms d' :=
  ⟨fun _ => h, fun hflag => absurd h (Bool.eq_false_iff.1 hflag)⟩

theorem of_same (hflag : d'.rebalance = d.rebalance) (h : d.registry.SameSwarms d'.registry) :
    d.KeepsSwarms d' := ⟨hflag.trans, fun _ => h⟩

/-- Drafts begin without the flag. -/
theorem of_registry {r r' : Registry} (h : r.SameSwarms r') :
    KeepsSwarms { registry := r } { registry := r' } := .of_same rfl h

end KeepsSwarms

theorem keepsSwarms_expire (d : Draft) (key : PublicKey) : d.KeepsSwarms (d.expire key) := by
  unfold expire
  split
  · exact .refl d
  · rename_i info hinfo
    refine ⟨fun h => by simp [h], fun hflag => .remove ?_⟩
    obtain ⟨-, hinactive⟩ := Bool.or_eq_false_iff.1 hflag
    rw [Registry.activeSwarm?_of_info hinfo, NodeInfo.activeSwarm?, hinactive]
    rfl

theorem keepsSwarms_expireNodes (ctx : Context) (block : Block) (d : Draft) :
    d.KeepsSwarms (d.expireNodes ctx block) := by
  unfold expireNodes
  generalize d.registry.expiring ctx block.fork block.height = keys
  induction keys generalizing d with
  | nil => exact .refl d
  | cons key keys ih => exact (keepsSwarms_expire d key).trans (ih _)

variable {ctx : Context} {block : Block} {index : Nat} {tx : Transaction} {d d' : Draft}

/-- A node that is only registered is not active, and no node is registered twice since infinite
staking. -/
theorem keepsSwarms_of_entering (hrequirement : 0 < ctx.rules.stakingRequirement)
    (hfork : HardFork.infiniteStaking ≤ block.fork) (h : Entering ctx block index tx d d') :
    d.KeepsSwarms d' := by
  cases h with
  | nobody => exact .refl d
  | newcomer registers vacant =>
      refine .of_same rfl (.put ?_)
      rw [NodeInfo.activeSwarm?_of_unfunded (unfunded_of_registeredNode hrequirement registers),
        Registry.activeSwarm?, vacant]
      rfl
  | again registers found renews =>
      rw [reregistered?, if_pos (.inl hfork)] at renews
      cases renews

/-- A stake makes a node active only by making it fully funded. -/
theorem keepsSwarms_of_crediting (h : Crediting ctx block index tx d d') : d.KeepsSwarms d' := by
  cases h with
  | nobody => exact .refl d
  | @taken stake info decoded found accepted =>
      refine ⟨fun h => by simp [credited, h], fun hflag => .put ?_⟩
      obtain ⟨-, hopen⟩ := Bool.or_eq_false_iff.1 hflag
      have hwaits := NodeInfo.unfunded_of_acceptsStake accepted
      rw [NodeInfo.activeSwarm?_of_unfunded hopen, Registry.activeSwarm?_of_info found,
        NodeInfo.activeSwarm?_of_unfunded hwaits]

/-- Of the transactions only registrations and removals through the bridge change who is active
and do not ask for new swarms. -/
theorem keepsSwarms_of_move (hrequirement : 0 < ctx.rules.stakingRequirement)
    (hfork : HardFork.infiniteStaking ≤ block.fork) (hbridged : tx.kind ≠ .bridgeRegistration)
    (hexpelled : tx.kind ≠ .bridgeDeregister) (h : Move ctx block index tx d d') :
    d.KeepsSwarms d' := by
  cases h with
  | nothing => exact .refl d
  | staked kind enters credits =>
      exact (keepsSwarms_of_entering hrequirement hfork enters).trans
        (keepsSwarms_of_crediting credits)
  | deregistered kind votes asked => exact .of_raised rfl
  | decommissioned kind votes asked fork up => exact .of_raised rfl
  | recommissioned kind votes asked fork down => exact .of_raised rfl
  | penalised kind votes asked fork up => exact .of_raised rfl
  | unlocking kind names asks found granted =>
      exact .of_same rfl (.put (Registry.activeSwarm?_of_info found).symm)
  | bridged kind registers => exact absurd kind hbridged
  | leaving kind names found =>
      refine .of_same rfl (.put ?_)
      rw [Registry.activeSwarm?_of_info found]
      unfold NodeInfo.leavingAt
      split <;> rfl
  | exited kind => exact .of_same rfl (.refl _)
  | expelled kind names => exact absurd kind hexpelled

end Draft

/-! ## Numbers of swarms -/

namespace NodeInfo

/-- The node is in a swarm that has a number, or is unassigned. -/
def Numbered (info : NodeInfo) : Prop := info.swarm ≤ unassignedSwarm

/-- Both entries are of one swarm. -/
def SameSwarm (info info' : NodeInfo) : Prop := info'.swarm = info.swarm

instance : Frame SameSwarm where
  refl _ := rfl
  trans h h' := Eq.trans h' h

theorem Numbered.of_sameSwarm {info info' : NodeInfo} (h : info.Numbered)
    (hsame : info.SameSwarm info') : info'.Numbered := by
  unfold Numbered
  rw [hsame]
  exact h

end NodeInfo

theorem Registry.Every.of_keepsEntries {r r' : Registry} (h : r.Every NodeInfo.Numbered)
    (hkeeps : r.KeepsEntries NodeInfo.SameSwarm r') : r'.Every NodeInfo.Numbered := by
  intro key info' hinfo'
  obtain ⟨info, hinfo, hsame⟩ := hkeeps key info' hinfo'
  exact (h key info hinfo).of_sameSwarm hsame

namespace Draft

variable {ctx : Context} {block : Block} {index : Nat} {tx : Transaction} {d d' : Draft}

theorem numbered_of_entering (h : d.registry.Every NodeInfo.Numbered)
    (henters : Entering ctx block index tx d d') : d'.registry.Every NodeInfo.Numbered := by
  cases henters with
  | nobody => exact h
  | newcomer registers vacant =>
      obtain ⟨reg, operator, value, others, -, -, -, -, rfl⟩ := registeredNode_eq_some registers
      exact Registry.Each.insert h rfl (Nat.le_refl _)
  | again registers found renews =>
      obtain ⟨reg, operator, value, others, -, -, -, -, rfl⟩ := registeredNode_eq_some registers
      unfold reregistered? at renews
      split at renews
      · cases renews
      · cases renews
        exact Registry.Each.insert h rfl (Nat.le_refl _)

theorem numbered_of_crediting (h : d.registry.Every NodeInfo.Numbered)
    (hcredits : Crediting ctx block index tx d d') : d'.registry.Every NodeInfo.Numbered := by
  cases hcredits with
  | nobody => exact h
  | @taken stake info decoded found accepted =>
      refine Registry.Each.insert h rfl ?_
      obtain ⟨_, _, _, _, heq⟩ :=
        info.exists_creditStake_eq block.fork block.height index stake
      rw [heq]
      exact NodeInfo.Numbered.of_sameSwarm (h _ _ found) rfl

/-- No transaction makes up a number. -/
theorem numbered_of_move (h : d.registry.Every NodeInfo.Numbered)
    (hmove : Move ctx block index tx d d') : d'.registry.Every NodeInfo.Numbered := by
  cases hmove with
  | nothing => exact h
  | staked kind enters credits =>
      exact numbered_of_crediting (numbered_of_entering h enters) credits
  | deregistered kind votes asked => exact Registry.Each.erase h rfl
  | @decommissioned change q key info kind votes asked fork up =>
      refine Registry.Each.insert h rfl ?_
      show (if _ then _ else _) ≤ unassignedSwarm
      split
      · exact Nat.le_refl _
      · exact h _ _ votes.registered
  | recommissioned kind votes asked fork down =>
      exact Registry.Each.insert h rfl (.of_sameSwarm (h _ _ votes.registered) rfl)
  | penalised kind votes asked fork up =>
      exact Registry.Each.insert h rfl (.of_sameSwarm (h _ _ votes.registered) rfl)
  | unlocking kind names asks found granted =>
      exact Registry.Each.insert h rfl (.of_sameSwarm (h _ _ found) rfl)
  | bridged kind registers =>
      obtain ⟨reg, operator, -, -, rfl⟩ := bridgedNode_eq_ok registers
      exact Registry.Each.insert h rfl (Nat.le_refl _)
  | leaving kind names found =>
      refine Registry.Each.insert h rfl ?_
      unfold NodeInfo.leavingAt
      split <;> exact .of_sameSwarm (h _ _ found) rfl
  | exited kind => exact h
  | expelled kind names => exact Registry.Each.erase h rfl

end Draft

namespace Registry

theorem numbered_opened {r : Registry} (h : r.Every NodeInfo.Numbered) (ctx : Context)
    (block : Block) : (r.opened ctx block).registry.Every NodeInfo.Numbered := by
  rw [opened_eq]
  have hunpaid := h.of_keepsEntries (keepsEntries_unpaid (fun _ _ => rfl) r ctx block)
  exact hunpaid.of_keepsEntries (.modify fun _ => rfl)

theorem numbered_assignSwarms {r : Registry} {swarms : SwarmMap} (h : r.Every NodeInfo.Numbered)
    (hnumbered : swarms.Numbered) : (r.assignSwarms swarms).Every NodeInfo.Numbered := by
  have hplaced : ∀ p ∈ placements swarms, p.2 ≤ unassignedSwarm := by
    rintro ⟨key, id⟩ hp
    obtain ⟨ms, hms, -⟩ := mem_placements.1 hp
    exact Nat.le_of_lt (hnumbered id (SortedMap.mem_keys.2 ⟨ms, hms⟩))
  rw [assignSwarms_eq]
  generalize placements swarms = placed at hplaced ⊢
  induction placed generalizing r with
  | nil => exact h
  | cons p placed ih =>
      obtain ⟨hp, hplaced⟩ := List.forall_mem_cons.1 hplaced
      refine ih (fun key info' hinfo' => ?_) hplaced
      rw [place, info?_modify] at hinfo'
      split at hinfo'
      · obtain ⟨info, -, rfl⟩ := Option.map_eq_some_iff.1 hinfo'
        exact hp
      · exact h key info' hinfo'

end Registry

/-! ## Blocks -/

/-- Since infinite staking, and with a requirement that has to be met, nobody is registered or
removed through the bridge. -/
structure Unbridged (ctx : Context) (block : Block) (txs : List Transaction) : Prop where
  requirement : 0 < ctx.rules.stakingRequirement
  fork : HardFork.infiniteStaking ≤ block.fork
  kinds : ∀ tx ∈ txs, tx.kind ≠ .bridgeRegistration ∧ tx.kind ≠ .bridgeDeregister

namespace Registry

variable {r next : Registry} {ctx : Context} {block : Block} {txs : List Transaction}
  {outcome : Outcome}

theorem keepsSwarms_opened (r : Registry) (ctx : Context) (block : Block) :
    Draft.KeepsSwarms { registry := r } (r.opened ctx block) := by
  have hsame : r.SameSwarms (((r.atBlock block).formPulseQuorum ctx block
      (block.minerTx.winner?.getD 0)).trimBlacklist block) := by
    refine SameSwarms.trans ?_ (.trimBlacklist _ block)
    exact SameSwarms.trans (fun _ => rfl) (.formPulseQuorum _ ctx block _)
  have hpaid : (r.unpaid ctx block).KeepsSwarms (r.opened ctx block) := by
    rw [opened_eq]
    exact .of_same rfl (SameSwarms.modify fun _ => rfl)
  exact (Draft.KeepsSwarms.of_registry hsame).trans
    ((Draft.keepsSwarms_expireNodes ctx block _).trans hpaid)

theorem keepsSwarms_draft (hunbridged : Unbridged ctx block txs) :
    Draft.KeepsSwarms { registry := r } (r.draft ctx block txs) := by
  rw [draft_eq]
  refine Draft.applyTransactions_induction (keepsSwarms_opened r ctx block) fun d tx index hmem h =>
    h.trans ?_
  obtain ⟨hbridged, hexpelled⟩ := hunbridged.kinds tx hmem
  exact Draft.keepsSwarms_of_move hunbridged.requirement hunbridged.fork hbridged hexpelled
    (Draft.move_applyTransaction d tx index)

theorem numbered_draft (h : r.Every NodeInfo.Numbered) (ctx : Context) (block : Block)
    (txs : List Transaction) : (r.draft ctx block txs).registry.Every NodeInfo.Numbered := by
  rw [draft_eq]
  exact Draft.applyTransactions_induction (P := fun d => d.registry.Every NodeInfo.Numbered)
    (numbered_opened h ctx block) fun d tx index _ hd =>
      Draft.numbered_of_move hd (Draft.move_applyTransaction d tx index)

theorem Every.active {P : NodeInfo → Prop} (h : r.Every P) : ∀ n ∈ r.active, P n.2 :=
  fun n hn => h n.1 n.2 (SortedMap.get?_eq_some_iff.2 (List.mem_filter.1 hn).1)

/-- Rebalancing takes its numbers from those that it finds, or makes up fresh ones. -/
theorem numbered_rebalance_swarms (h : r.Every NodeInfo.Numbered) (seed : Nat) :
    ((swarms r.active).rebalance seed).Numbered := by
  refine SwarmMap.numbered_rebalance (fun id hid => ?_) seed
  obtain ⟨n, hn, rfl⟩ := exists_of_mem_keys_swarms hid
  exact h.active n hn

/-- A rebalancing puts every active node into a swarm, and into one of several only if each of
them has members enough. -/
theorem inSwarms_rebalanceSwarms (h : r.Every NodeInfo.Numbered) (block : Block) :
    (r.rebalanceSwarms block).InSwarms :=
  inSwarms_assignSwarms ((SwarmMap.members_rebalance _ _).trans (members_swarms r.active))
    (numbered_rebalance_swarms h _) (SwarmMap.balanced_rebalance _ _)

/-- Both hold of the registry after a block if they hold of the one before. -/
theorem inSwarms_of_apply (hunbridged : Unbridged ctx block txs)
    (hnumbered : r.Every NodeInfo.Numbered) (hswarms : r.InSwarms)
    (h : r.apply ctx block txs = .ok (next, outcome)) :
    next.Every NodeInfo.Numbered ∧ next.InSwarms := by
  obtain ⟨-, -, quorums, -, rfl⟩ := apply_eq_ok_iff.1 h
  suffices hsettled : (r.settled ctx block txs).Every NodeInfo.Numbered ∧
      (r.settled ctx block txs).InSwarms from
    ⟨hsettled.1, hsettled.2.congr fun _ => rfl⟩
  have hdraft := numbered_draft hnumbered ctx block txs
  unfold settled
  dsimp only
  split
  · exact ⟨numbered_assignSwarms hdraft (numbered_rebalance_swarms hdraft _),
      inSwarms_rebalanceSwarms hdraft block⟩
  · rename_i hflag
    exact ⟨hdraft, hswarms.congr ((keepsSwarms_draft hunbridged).same (Bool.eq_false_iff.2 hflag))⟩

theorem inSwarms_new (height : Nat) : (new height).InSwarms :=
  ⟨fun _ hid => absurd hid List.not_mem_nil, .inl fun _ hid => absurd hid List.not_mem_nil⟩

/-- Without the bridge, every active node of a registry that arises is in a swarm, and if there
is more than one swarm then every one has members enough. -/
theorem Arises.inSwarms (h : Arises Unbridged r) : r.InSwarms := by
  have hboth : r.Every NodeInfo.Numbered ∧ r.InSwarms :=
    h.induction (I := fun r => r.Every NodeInfo.Numbered ∧ r.InSwarms)
      (fun height => ⟨.new height, inSwarms_new height⟩)
      fun hallowed hr happly => inSwarms_of_apply hallowed hr.1 hr.2 happly
  exact hboth.2

/-- A registration, and in the next block the contribution that makes the node active: it is the
only one, in swarm zero. -/
theorem inSwarms_sharedFull :
    Arises Unbridged sharedFull ∧ sharedFull.activeSwarms = [0] ∧ sharedFull.InSwarms := by
  have hfull : Arises Unbridged sharedFull := by
    refine arises_sharedFull ⟨by decide, by decide, ?_⟩ ⟨by decide, by decide, ?_⟩
    · exact List.forall_mem_singleton.2 (by decide)
    · exact List.forall_mem_singleton.2 (by decide)
  exact ⟨hfull, by decide +kernel, hfull.inSwarms⟩

end Registry

end StakeRegistry
