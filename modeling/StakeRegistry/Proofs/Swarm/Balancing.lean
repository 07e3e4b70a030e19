import Mathlib.Data.List.Perm.Subperm
import StakeRegistry.Proofs.Random.Shuffle
import StakeRegistry.Swarm

/-!
# Rebalancing loses nobody and leaves no small swarms

Whatever the generator draws, a rebalancing moves nodes between swarms and neither drops nor
repeats one. Every step but the founding and the dissolving of a swarm keeps the swarms' numbers
(`SwarmMap.Spread`). Main statements:

* `SwarmMap.members_rebalance`: the nodes in swarms are those from before;
* `SwarmMap.numbered_rebalance`: all of them have been assigned;
* `SwarmMap.balanced_rebalance`: one swarm is left at most, or none is too small.
-/

set_option autoImplicit false

namespace StakeRegistry

open scoped List

namespace SwarmMap

/-- The nodes in swarms. -/
def members (swarms : SwarmMap) : List PublicKey := swarms.values.flatten

/-- The numbers of the swarms that are too small. -/
def undersized (swarms : SwarmMap) : List Nat :=
  (swarms.toList.filter fun s => s.2.length < minSwarmSize).map (·.1)

/-- Every swarm has a number below that of the unassigned nodes. -/
def Numbered (swarms : SwarmMap) : Prop := ∀ id ∈ swarms.keys, id < unassignedSwarm

/-- There is one swarm at most, or none is too small. -/
def Balanced (swarms : SwarmMap) : Prop :=
  swarms.size ≤ 1 ∨ ∀ s ∈ swarms.toList, minSwarmSize ≤ s.2.length

variable {swarms : SwarmMap} {id target : Nat} {nodes nodes' ms ms' : List PublicKey}
  {node : PublicKey}

/-! ## Choices from a list -/

section Choices

variable {α : Type} {f : α → Nat} {l : List α} {a : α}

theorem minOn?_eq_none_iff : l.minOn? f = none ↔ l = [] := by
  rw [← Option.not_isSome_iff_eq_none, List.isSome_minOn?_iff, not_not]

theorem maxOn?_eq_none_iff : l.maxOn? f = none ↔ l = [] := by
  rw [← Option.not_isSome_iff_eq_none, List.isSome_maxOn?_iff, not_not]

/-- What is chosen for the greatest measure has it. -/
theorem le_of_maxOn? (h : l.maxOn? f = some a) : ∀ b ∈ l, f b ≤ f a := by
  intro b hb
  have hle := List.le_apply_get_maxOn?_of_mem (f := f) hb
  simpa only [h, Option.get_some] using hle

end Choices

/-! ## Members of a changed map -/

theorem members_insert (swarms : SwarmMap) (id : Nat) (ms : List PublicKey) :
    (members (swarms.insert id ms)).Perm (ms ++ members (swarms.erase id)) :=
  ((SortedMap.toList_insert_perm swarms id ms).map _).flatten

/-- The nodes in swarms are those of one swarm and those of the others. -/
theorem members_perm (swarms : SwarmMap) (id : Nat) :
    swarms.members.Perm ((swarms.get? id).getD [] ++ members (swarms.erase id)) := by
  cases hid : swarms.get? id with
  | none => rw [SortedMap.erase_of_get?_eq_none hid, Option.getD_none, List.nil_append]
  | some ms => exact ((SortedMap.toList_perm_of_get? hid).map _).flatten

theorem size_eq_length_keys (swarms : SwarmMap) : swarms.size = swarms.keys.length :=
  (List.length_map _).symm

theorem mem_keys_erase : id ∈ (swarms.erase target).keys ↔ id ≠ target ∧ id ∈ swarms.keys := by
  rw [SortedMap.mem_keys, SortedMap.mem_keys]
  simp only [SortedMap.get?_erase]
  by_cases hid : id = target
  · simp [hid]
  · simp [hid]

theorem mem_keys_insert : id ∈ (swarms.insert target ms).keys ↔ id = target ∨ id ∈ swarms.keys := by
  rw [SortedMap.mem_keys, SortedMap.mem_keys]
  simp only [SortedMap.get?_insert]
  by_cases hid : id = target
  · simp [hid]
  · simp [hid]

theorem erase_of_not_mem (h : id ∉ swarms.keys) : swarms.erase id = swarms :=
  SortedMap.erase_of_get?_eq_none
    (Option.eq_none_iff_forall_not_mem.2 fun ms hms => h (SortedMap.mem_keys.2 ⟨ms, hms⟩))

theorem nodup_undersized (swarms : SwarmMap) : swarms.undersized.Nodup :=
  (List.filter_sublist.map _).nodup swarms.nodup_keys

theorem mem_undersized :
    id ∈ swarms.undersized ↔ ∃ ms, swarms.get? id = some ms ∧ ms.length < minSwarmSize := by
  unfold undersized
  simp only [List.mem_map, List.mem_filter, decide_eq_true_eq, SortedMap.get?_eq_some_iff,
    Prod.exists]
  constructor
  · rintro ⟨_, ms, ⟨hmem, hsmall⟩, rfl⟩
    exact ⟨ms, hmem, hsmall⟩
  · rintro ⟨ms, hmem, hsmall⟩
    exact ⟨id, ms, ⟨hmem, hsmall⟩, rfl⟩

theorem mem_keys_of_undersized (h : id ∈ swarms.undersized) : id ∈ swarms.keys := by
  obtain ⟨ms, hms, -⟩ := mem_undersized.1 h
  exact SortedMap.mem_keys.2 ⟨ms, hms⟩

/-! ## Nodes put into swarms, and taken out of them -/

/-- The second map has the swarms of the first, with some nodes more. -/
structure Spread (swarms : SwarmMap) (nodes : List PublicKey) (swarms' : SwarmMap) : Prop where
  keys : swarms'.keys = swarms.keys
  members : swarms'.members.Perm (nodes ++ swarms.members)

namespace Spread

variable {swarms' swarms'' : SwarmMap}

theorem refl (swarms : SwarmMap) : Spread swarms [] swarms := ⟨rfl, .refl _⟩

theorem trans (h : Spread swarms nodes swarms') (h' : Spread swarms' nodes' swarms'') :
    Spread swarms (nodes' ++ nodes) swarms'' := by
  refine ⟨h'.keys.trans h.keys, h'.members.trans ?_⟩
  rw [List.append_assoc]
  exact h.members.append_left nodes'

theorem congr (h : Spread swarms nodes swarms') (hperm : nodes.Perm nodes') :
    Spread swarms nodes' swarms' := ⟨h.keys, h.members.trans (hperm.append_right _)⟩

/-- Two maps with the same nodes more than a third have the same nodes. -/
theorem move (h : Spread swarms nodes swarms') (h' : Spread swarms nodes swarms'') :
    Spread swarms' [] swarms'' :=
  ⟨h'.keys.trans h.keys.symm, h'.members.trans h.members.symm⟩

/-- One swarm takes the nodes. -/
theorem insert (hid : swarms.get? id = some ms) (hms : ms'.Perm (nodes ++ ms)) :
    Spread swarms nodes (swarms.insert id ms') := by
  refine ⟨SortedMap.keys_insert_of_mem (SortedMap.mem_keys.2 ⟨ms, hid⟩) ms', ?_⟩
  have hold : swarms.members.Perm (ms ++ SwarmMap.members (swarms.erase id)) := by
    have hsplit := members_perm swarms id
    rwa [hid, Option.getD_some] at hsplit
  calc SwarmMap.members (swarms.insert id ms')
    _ ~ ms' ++ SwarmMap.members (swarms.erase id) := members_insert swarms id ms'
    _ ~ nodes ++ ms ++ SwarmMap.members (swarms.erase id) := hms.append_right _
    _ = nodes ++ (ms ++ SwarmMap.members (swarms.erase id)) := List.append_assoc ..
    _ ~ nodes ++ swarms.members := hold.symm.append_left nodes

end Spread

theorem join_eq (hswarms : swarms.toList ≠ []) (node : PublicKey) :
    ∃ id ms, swarms.get? id = some ms ∧ swarms.join node = swarms.insert id (ms ++ [node]) := by
  unfold join
  cases hsmallest : swarms.smallest? with
  | none => exact absurd (minOn?_eq_none_iff.1 hsmallest) hswarms
  | some s => exact ⟨s.1, s.2, SortedMap.get?_eq_some_iff.2 (List.minOn?_mem hsmallest), rfl⟩

theorem join_of_nil (hswarms : swarms.toList = []) (node : PublicKey) :
    swarms.join node = swarms := by
  unfold join smallest?
  rw [hswarms]
  rfl

theorem spread_join (hswarms : swarms.toList ≠ []) (node : PublicKey) :
    Spread swarms [node] (swarms.join node) := by
  obtain ⟨id, ms, hid, heq⟩ := join_eq hswarms node
  rw [heq]
  exact .insert hid List.perm_append_comm

theorem toList_ne_nil_of_keys {swarms' : SwarmMap} (h : swarms'.keys = swarms.keys)
    (hswarms : swarms.toList ≠ []) : swarms'.toList ≠ [] := by
  intro hnil
  have hlength := congrArg List.length h
  rw [← size_eq_length_keys, ← size_eq_length_keys] at hlength
  unfold SortedMap.size at hlength
  rw [hnil, List.length_nil] at hlength
  exact hswarms (List.length_eq_zero_iff.1 hlength.symm)

theorem spread_foldl_join (hswarms : swarms.toList ≠ []) (nodes : List PublicKey) :
    Spread swarms nodes (nodes.foldl join swarms) := by
  induction nodes generalizing swarms with
  | nil => exact .refl swarms
  | cons node nodes ih =>
      have hjoin := spread_join hswarms node
      have hrest := hjoin.trans (ih (toList_ne_nil_of_keys hjoin.keys hswarms))
      exact hrest.congr List.perm_append_comm

/-- A random member is one of the members. -/
theorem perm_of_takeRandom {g g' : Twister} {rest : List PublicKey}
    (h : takeRandom ms g = (some (node, rest), g')) : ms.Perm (node :: rest) := by
  unfold takeRandom at h
  split at h
  · cases h
  · simp only [Prod.mk.injEq, Option.map_eq_some_iff] at h
    obtain ⟨⟨taken, htaken, rfl, rfl⟩, -⟩ := h
    obtain ⟨hi, rfl⟩ := List.getElem?_eq_some_iff.1 htaken
    exact (List.getElem_cons_eraseIdx_perm hi).symm

/-- Taking a node out of a swarm, seen from behind. -/
theorem spread_of_perm {rest : List PublicKey} (hid : swarms.get? id = some ms)
    (h : ms.Perm (node :: rest)) : Spread (swarms.insert id rest) [node] swarms := by
  have hkeys := SortedMap.keys_insert_of_mem (SortedMap.mem_keys.2 ⟨ms, hid⟩) rest
  refine ⟨hkeys.symm, ?_⟩
  have hold : swarms.members.Perm (ms ++ members (swarms.erase id)) := by
    have hsplit := members_perm swarms id
    rwa [hid, Option.getD_some] at hsplit
  calc swarms.members
    _ ~ ms ++ members (swarms.erase id) := hold
    _ ~ node :: (rest ++ members (swarms.erase id)) := h.append_right _
    _ ~ node :: members (swarms.insert id rest) := (members_insert swarms id rest).symm.cons node

/-- Nodes taken from the largest swarms are put back to give the swarms from before. -/
theorem spread_takeFromLargest (count : Nat) (swarms : SwarmMap) (g : Twister) :
    Spread (takeFromLargest count swarms g).2.1 (takeFromLargest count swarms g).1 swarms := by
  induction count generalizing swarms g with
  | zero => exact .refl swarms
  | succ count ih =>
      unfold takeFromLargest
      split
      · exact .refl swarms
      · rename_i id ms hlargest
        have hid := SortedMap.get?_eq_some_iff.2 (List.maxOn?_mem hlargest)
        split
        · exact .refl swarms
        · rename_i node rest g' htaken
          have hback := spread_of_perm hid (perm_of_takeRandom htaken)
          exact (ih (swarms.insert id rest) g').trans hback

/-! ## Filling a swarm -/

/-- A swarm that can spare a member gives one to another. -/
inductive Lends (swarms : SwarmMap) (target : Nat) : SwarmMap → Prop where
  | one {id : Nat} {donated rest : List PublicKey} {node : PublicKey} (other : id ≠ target)
      (donor : swarms.get? id = some donated) (spare : minSwarmSize < donated.length)
      (taken : donated.Perm (node :: rest)) :
      Lends swarms target
        ((swarms.insert id rest).insert target ((swarms.get? target).getD [] ++ [node]))

/-- One step of filling a swarm: nothing, or one member moves. -/
theorem fill_succ (target count : Nat) (swarms : SwarmMap) (g : Twister) :
    (∃ g', fill target (count + 1) swarms g = (swarms, g')) ∨
      ∃ swarms' g', Lends swarms target swarms' ∧
        fill target (count + 1) swarms g = fill target count swarms' g' := by
  rw [fill]
  split
  · exact .inl ⟨g, rfl⟩
  · split
    · exact .inl ⟨g, rfl⟩
    · rename_i id donated hdonor
      have hmem := List.mem_filter.1 (List.maxOn?_mem hdonor)
      simp only [Bool.and_eq_true, bne_iff_ne, decide_eq_true_eq] at hmem
      split
      · rename_i g' _
        exact .inl ⟨g', rfl⟩
      · rename_i node rest g' htaken
        exact .inr ⟨_, g', .one hmem.2.1 (SortedMap.get?_eq_some_iff.2 hmem.1) hmem.2.2
          (perm_of_takeRandom htaken), rfl⟩

namespace Lends

variable {swarms' : SwarmMap}

theorem spread (h : Lends swarms target swarms') (htarget : target ∈ swarms.keys) :
    Spread swarms [] swarms' := by
  obtain ⟨ms, hms⟩ := SortedMap.mem_keys.1 htarget
  cases h with
  | @one id donated rest node other donor spare taken =>
      have hkept : (swarms.insert id rest).get? target = some ms := by
        rw [SortedMap.get?_insert_of_ne _ _ other.symm, hms]
      refine Spread.move (spread_of_perm donor taken) ?_
      rw [hms, Option.getD_some]
      exact .insert hkept List.perm_append_comm

/-- The swarm that gives one away stays large enough. -/
theorem undersized (h : Lends swarms target swarms') {id : Nat} (hid : id ∈ swarms'.undersized)
    (hne : id ≠ target) : id ∈ swarms.undersized := by
  cases h with
  | @one lender donated rest node other donor spare taken =>
      rw [mem_undersized, SortedMap.get?_insert_of_ne _ _ hne] at hid
      obtain ⟨ms, hms, hsmall⟩ := hid
      rw [SortedMap.get?_insert] at hms
      split at hms
      · cases hms
        have hlength := taken.length_eq
        rw [List.length_cons] at hlength
        omega
      · exact mem_undersized.2 ⟨ms, hms, hsmall⟩

end Lends

theorem spread_fill (count : Nat) (htarget : target ∈ swarms.keys) (g : Twister) :
    Spread swarms [] (fill target count swarms g).1 := by
  induction count generalizing swarms g with
  | zero => exact .refl swarms
  | succ count ih =>
      rcases fill_succ target count swarms g with ⟨g', heq⟩ | ⟨swarms', g', hlends, heq⟩
      · rw [heq]
        exact .refl swarms
      · rw [heq]
        have hstep := hlends.spread htarget
        exact hstep.trans (ih (hstep.keys ▸ htarget) g')

theorem size_fill (count : Nat) (htarget : target ∈ swarms.keys) (g : Twister) :
    SortedMap.size (fill target count swarms g).1 = swarms.size := by
  rw [size_eq_length_keys, (spread_fill count htarget g).keys, ← size_eq_length_keys]

/-- Of the other swarms none gets too small. -/
theorem undersized_fill (count : Nat) (g : Twister)
    (hid : id ∈ (fill target count swarms g).1.undersized) (hne : id ≠ target) :
    id ∈ swarms.undersized := by
  induction count generalizing swarms g with
  | zero => exact hid
  | succ count ih =>
      rcases fill_succ target count swarms g with ⟨g', heq⟩ | ⟨swarms', g', hlends, heq⟩
      · rwa [heq] at hid
      · rw [heq] at hid
        exact hlends.undersized (ih g' hid) hne

/-! ## Dissolving a swarm -/

/-- Whoever joins makes no swarm smaller. -/
theorem undersized_foldl_join (nodes : List PublicKey)
    (hid : id ∈ undersized (nodes.foldl join swarms)) : id ∈ swarms.undersized := by
  induction nodes generalizing swarms with
  | nil => exact hid
  | cons node nodes ih =>
      have hjoined := ih hid
      by_cases hswarms : swarms.toList = []
      · rwa [join_of_nil hswarms] at hjoined
      · obtain ⟨joined, ms, hms, heq⟩ := join_eq hswarms node
        rw [heq, mem_undersized] at hjoined
        obtain ⟨ms', hms', hsmall⟩ := hjoined
        rw [SortedMap.get?_insert] at hms'
        split at hms'
        · rename_i hjoin
          cases hms'
          rw [List.length_append, List.length_singleton] at hsmall
          exact mem_undersized.2 ⟨ms, hjoin ▸ hms, by omega⟩
        · exact mem_undersized.2 ⟨ms', hms', hsmall⟩

theorem undersized_dissolve (hid : id ∈ (swarms.dissolve target).undersized) :
    id ≠ target ∧ id ∈ swarms.undersized := by
  have herased := undersized_foldl_join _ hid
  rw [mem_undersized, SortedMap.get?_erase] at herased
  obtain ⟨ms, hms, hsmall⟩ := herased
  split at hms
  · cases hms
  · rename_i hne
    exact ⟨hne, mem_undersized.2 ⟨ms, hms, hsmall⟩⟩

theorem erase_ne_nil (hsize : 1 < swarms.size) (target : Nat) :
    SortedMap.toList (swarms.erase target) ≠ [] := by
  intro hnil
  cases htarget : swarms.get? target with
  | none =>
      rw [SortedMap.erase_of_get?_eq_none htarget] at hnil
      rw [SortedMap.size, hnil] at hsize
      simp at hsize
  | some ms =>
      have hlength := (SortedMap.toList_perm_of_get? htarget).length_eq
      rw [hnil] at hlength
      rw [SortedMap.size, hlength] at hsize
      simp at hsize

/-- The members of a swarm that is dissolved join others, if there are any. -/
theorem members_dissolve (hsize : 1 < swarms.size) (target : Nat) :
    (swarms.dissolve target).members.Perm swarms.members :=
  (spread_foldl_join (erase_ne_nil hsize target) _).members.trans (members_perm swarms target).symm

theorem keys_dissolve (hsize : 1 < swarms.size) (target : Nat) :
    SortedMap.keys (swarms.dissolve target) = SortedMap.keys (swarms.erase target) :=
  (spread_foldl_join (erase_ne_nil hsize target) _).keys

/-! ## Mending -/

/-- A swarm that is too small is filled, and dissolved if others cannot spare enough. -/
inductive Mends (swarms : SwarmMap) : SwarmMap → Prop where
  | filled {target : Nat} {g : Twister} (small : target ∈ swarms.undersized)
      (enough : target ∉ (fill target minSwarmSize swarms g).1.undersized) :
      Mends swarms (fill target minSwarmSize swarms g).1
  | dissolved {target : Nat} {g : Twister} (small : target ∈ swarms.undersized)
      (several : 1 < swarms.size) :
      Mends swarms ((fill target minSwarmSize swarms g).1.dissolve target)

/-- One round of mending: nothing is left to do, or one swarm is mended. -/
theorem mend_succ (rounds : Nat) (swarms : SwarmMap) (g : Twister) :
    (mend (rounds + 1) swarms g = (swarms, g) ∧ swarms.Balanced) ∨
      ∃ swarms' g', Mends swarms swarms' ∧ mend (rounds + 1) swarms g = mend rounds swarms' g' := by
  rw [mend]
  split
  · rename_i hsize
    exact .inl ⟨rfl, .inl hsize⟩
  · rename_i hsize
    split
    · rename_i hnone
      refine .inl ⟨rfl, .inr fun s hs => ?_⟩
      have hlarge := List.filter_eq_nil_iff.1 (minOn?_eq_none_iff.1 hnone) s hs
      simpa using hlarge
    · rename_i target ms htarget
      have hmem := List.mem_filter.1 (List.minOn?_mem htarget)
      have hsmall : target ∈ swarms.undersized :=
        mem_undersized.2 ⟨ms, SortedMap.get?_eq_some_iff.2 hmem.1, by simpa using hmem.2⟩
      dsimp only
      split
      · exact .inr ⟨_, _, .dissolved hsmall (Nat.lt_of_not_le hsize), rfl⟩
      · rename_i hfilled
        refine .inr ⟨_, _, .filled hsmall fun hstill => hfilled ?_, rfl⟩
        obtain ⟨ms', hms', hlength⟩ := mem_undersized.1 hstill
        rwa [hms']

namespace Mends

variable {swarms' : SwarmMap}

theorem members (h : Mends swarms swarms') : swarms'.members.Perm swarms.members := by
  cases h with
  | @filled target g small enough =>
      exact (spread_fill minSwarmSize (mem_keys_of_undersized small) g).members
  | @dissolved target g small several =>
      have htarget := mem_keys_of_undersized small
      have hfill := spread_fill minSwarmSize htarget g
      have hsize : 1 < SortedMap.size (fill target minSwarmSize swarms g).1 := by
        rwa [size_fill minSwarmSize htarget g]
      exact (members_dissolve hsize target).trans hfill.members

theorem keys (h : Mends swarms swarms') : swarms'.keys ⊆ swarms.keys := by
  cases h with
  | @filled target g small enough =>
      rw [(spread_fill minSwarmSize (mem_keys_of_undersized small) g).keys]
      exact List.Subset.refl _
  | @dissolved target g small several =>
      have htarget := mem_keys_of_undersized small
      have hfill := spread_fill minSwarmSize htarget g
      have hsize : 1 < SortedMap.size (fill target minSwarmSize swarms g).1 := by
        rwa [size_fill minSwarmSize htarget g]
      intro id hid
      rw [keys_dissolve hsize, mem_keys_erase, hfill.keys] at hid
      exact hid.2

/-- Of the swarms that were too small one is not any more, and no other has become so. -/
theorem undersized_of_mem (h : Mends swarms swarms') : ∃ target ∈ swarms.undersized,
    target ∉ swarms'.undersized ∧ swarms'.undersized ⊆ swarms.undersized := by
  cases h with
  | @filled target g small enough =>
      refine ⟨target, small, enough, fun id hid => ?_⟩
      exact undersized_fill _ g hid fun heq => enough (heq ▸ hid)
  | @dissolved target g small several =>
      refine ⟨target, small, fun hid => (undersized_dissolve hid).1 rfl, fun id hid => ?_⟩
      obtain ⟨hne, hfilled⟩ := undersized_dissolve hid
      exact undersized_fill _ g hfilled hne

theorem fewer (h : Mends swarms swarms') :
    swarms'.undersized.length < swarms.undersized.length := by
  obtain ⟨target, htarget, hgone, hsubset⟩ := h.undersized_of_mem
  have hnodup : (target :: swarms'.undersized).Nodup :=
    List.nodup_cons.2 ⟨hgone, swarms'.nodup_undersized⟩
  exact (List.subperm_of_subset hnodup (List.cons_subset.2 ⟨htarget, hsubset⟩)).length_le

end Mends

theorem members_mend (rounds : Nat) (swarms : SwarmMap) (g : Twister) :
    (mend rounds swarms g).1.members.Perm swarms.members := by
  induction rounds generalizing swarms g with
  | zero => exact .refl _
  | succ rounds ih =>
      rcases mend_succ rounds swarms g with ⟨heq, -⟩ | ⟨swarms', g', hmends, heq⟩
      · rw [heq]
      · rw [heq]
        exact (ih swarms' g').trans hmends.members

theorem keys_mend (rounds : Nat) (swarms : SwarmMap) (g : Twister) :
    SortedMap.keys (mend rounds swarms g).1 ⊆ swarms.keys := by
  induction rounds generalizing swarms g with
  | zero => exact List.Subset.refl _
  | succ rounds ih =>
      rcases mend_succ rounds swarms g with ⟨heq, -⟩ | ⟨swarms', g', hmends, heq⟩
      · rw [heq]
        exact List.Subset.refl _
      · rw [heq]
        exact List.Subset.trans (ih swarms' g') hmends.keys

/-- As many rounds as there are swarms that are too small are enough to mend all of them. -/
theorem balanced_mend (rounds : Nat) (g : Twister) (h : swarms.undersized.length ≤ rounds) :
    (mend rounds swarms g).1.Balanced := by
  induction rounds generalizing swarms g with
  | zero =>
      refine .inr fun s hs => ?_
      have hnil := List.map_eq_nil_iff.1 (List.length_eq_zero_iff.1 (Nat.le_zero.1 h))
      simpa using List.filter_eq_nil_iff.1 hnil s hs
  | succ rounds ih =>
      rcases mend_succ rounds swarms g with ⟨heq, hbalanced⟩ | ⟨swarms', g', hmends, heq⟩
      · rwa [heq]
      · rw [heq]
        exact ih g' (by have := hmends.fewer; omega)

/-! ## Founding swarms -/

/-- A gap begins below the number of unassigned nodes, and ends there at the latest; so its middle
lies below. -/
theorem freshId_lt (h : swarms.Numbered) : swarms.freshId < unassignedSwarm := by
  unfold freshId
  split
  · decide
  · dsimp only
    split
    · rename_i low high hgap
      obtain ⟨i, hi, heq⟩ := List.getElem_of_mem (List.maxOn?_mem hgap)
      rw [List.getElem_zip, Prod.mk.injEq] at heq
      obtain ⟨hlow, hhigh⟩ := heq
      have hi' : i < (0 :: swarms.keys).length := by
        simp only [List.length_zip, List.length_append, List.length_tail] at hi
        simp only [List.length_cons, List.length_nil] at hi ⊢
        omega
      have hlow_lt : low < unassignedSwarm := by
        rw [List.getElem_append_left hi'] at hlow
        rcases List.mem_cons.1 (hlow ▸ List.getElem_mem hi') with rfl | hmem
        · decide
        · exact h low hmem
      have hhigh_le : high ≤ unassignedSwarm := by
        have hmem := hhigh ▸ List.getElem_mem (List.lt_length_right_of_zip hi)
        rw [List.cons_append, List.tail_cons, List.mem_append, List.mem_singleton] at hmem
        rcases hmem with hmem | rfl
        · exact Nat.le_of_lt (h high hmem)
        · exact Nat.le_refl _
      omega
    · decide

/-- Founded swarms are made up of members of others. -/
theorem members_foundSwarms (rounds : Nat) (swarms : SwarmMap) (g : Twister) :
    (foundSwarms rounds swarms g).1.members.Perm swarms.members := by
  induction rounds generalizing swarms g with
  | zero => exact .refl _
  | succ rounds ih =>
      unfold foundSwarms
      split
      · exact .refl _
      · split
        · exact .refl _
        · rename_i hfresh
          have htaken := spread_takeFromLargest idealSwarmSize swarms g
          dsimp only
          refine (ih _ _).trans ((members_insert _ _ _).trans ?_)
          rw [erase_of_not_mem]
          · exact htaken.members.symm
          · rw [← htaken.keys]
            simpa [SortedMap.contains, SortedMap.mem_keys, Option.isSome_iff_exists] using hfresh

theorem numbered_foundSwarms (rounds : Nat) (g : Twister) (h : swarms.Numbered) :
    (foundSwarms rounds swarms g).1.Numbered := by
  induction rounds generalizing swarms g with
  | zero => exact h
  | succ rounds ih =>
      unfold foundSwarms
      split
      · exact h
      · split
        · exact h
        · refine ih _ fun id hid => ?_
          rcases mem_keys_insert.1 hid with rfl | hid
          · exact freshId_lt h
          · exact h id ((spread_takeFromLargest idealSwarmSize swarms g).keys ▸ hid)

/-! ## Assigning nodes -/

/-- The swarms that nodes join in an order: those that there are, or swarm zero if there are
none. -/
def joinedBy (swarms : SwarmMap) (nodes : List PublicKey) : SwarmMap :=
  let others := swarms.erase unassignedSwarm
  nodes.foldl join (if others.isEmpty && !nodes.isEmpty then others.insert 0 [] else others)

theorem spread_joinedBy (swarms : SwarmMap) (nodes : List PublicKey) : ∃ base,
    Spread base nodes (swarms.joinedBy nodes) ∧
      base.members.Perm (members (swarms.erase unassignedSwarm)) ∧
      base.keys ⊆ 0 :: SortedMap.keys (swarms.erase unassignedSwarm) := by
  unfold joinedBy
  dsimp only
  generalize swarms.erase unassignedSwarm = others
  split
  · rename_i hempty
    rw [Bool.and_eq_true] at hempty
    have hnil : others = ∅ := SortedMap.ext (List.isEmpty_iff.1 hempty.1)
    subst hnil
    exact ⟨_, spread_foldl_join (List.cons_ne_nil _ _) _, .refl _, List.Subset.refl _⟩
  · rename_i hempty
    refine ⟨others, ?_, .refl _, List.subset_cons_self _ _⟩
    by_cases hnil : nodes = []
    · rw [hnil]
      exact .refl others
    · refine spread_foldl_join (fun hothers => hempty ?_) _
      simp [SortedMap.isEmpty, hothers, hnil]

/-- The unassigned nodes join in the order that they are shuffled into. -/
theorem assign_eq (swarms : SwarmMap) (g : Twister) : ∃ nodes,
    nodes.Perm ((swarms.get? unassignedSwarm).getD []) ∧
      (swarms.assign g).1 = swarms.joinedBy nodes :=
  ⟨_, (shuffle_perm _ g).trans (List.mergeSort_perm _ _), rfl⟩

theorem members_joinedBy (hnodes : nodes.Perm ((swarms.get? unassignedSwarm).getD [])) :
    (swarms.joinedBy nodes).members.Perm swarms.members := by
  obtain ⟨base, hspread, hmembers, -⟩ := spread_joinedBy swarms nodes
  calc (swarms.joinedBy nodes).members
    _ ~ nodes ++ base.members := hspread.members
    _ ~ (swarms.get? unassignedSwarm).getD [] ++ members (swarms.erase unassignedSwarm) :=
      hnodes.append hmembers
    _ ~ swarms.members := (members_perm swarms unassignedSwarm).symm

theorem numbered_joinedBy (h : ∀ id ∈ swarms.keys, id ≤ unassignedSwarm)
    (nodes : List PublicKey) : (swarms.joinedBy nodes).Numbered := by
  intro id hid
  obtain ⟨base, hspread, -, hkeys⟩ := spread_joinedBy swarms nodes
  rw [hspread.keys] at hid
  rcases List.mem_cons.1 (hkeys hid) with rfl | hother
  · decide
  · obtain ⟨hne, hmem⟩ := mem_keys_erase.1 hother
    exact Nat.lt_of_le_of_ne (h id hmem) hne

theorem members_assign (swarms : SwarmMap) (g : Twister) :
    (swarms.assign g).1.members.Perm swarms.members := by
  obtain ⟨nodes, hnodes, heq⟩ := assign_eq swarms g
  rw [heq]
  exact members_joinedBy hnodes

theorem numbered_assign (h : ∀ id ∈ swarms.keys, id ≤ unassignedSwarm) (g : Twister) :
    (swarms.assign g).1.Numbered := by
  obtain ⟨nodes, -, heq⟩ := assign_eq swarms g
  rw [heq]
  exact numbered_joinedBy h nodes

/-! ## Rebalancing -/

variable {seed : Nat}

/-- A rebalancing drops nobody, and puts nobody in two swarms. -/
theorem members_rebalance (swarms : SwarmMap) (seed : Nat) :
    (swarms.rebalance seed).members.Perm swarms.members := by
  unfold rebalance
  dsimp only
  calc _ ~ _ := members_mend _ _ _
    _ ~ _ := members_foundSwarms _ _ _
    _ ~ swarms.members := members_assign swarms _

/-- After a rebalancing every node is assigned. -/
theorem numbered_rebalance (h : ∀ id ∈ swarms.keys, id ≤ unassignedSwarm) (seed : Nat) :
    (swarms.rebalance seed).Numbered := by
  unfold rebalance
  dsimp only
  intro id hid
  exact numbered_foundSwarms _ _ (numbered_assign h _) id (keys_mend _ _ _ hid)

/-- A rebalancing leaves one swarm at most, or only swarms that are large enough. -/
theorem balanced_rebalance (swarms : SwarmMap) (seed : Nat) :
    (swarms.rebalance seed).Balanced := by
  unfold rebalance
  dsimp only
  refine balanced_mend _ _ ?_
  rw [undersized, List.length_map]
  exact List.length_filter_le _ _

end SwarmMap

end StakeRegistry
