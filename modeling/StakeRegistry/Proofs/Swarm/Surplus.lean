import Mathlib.Algebra.Order.BigOperators.Group.List
import Mathlib.Algebra.Order.Group.Nat
import StakeRegistry.Proofs.Swarm.Balancing

/-!
# The surplus of swarms, and the numbers of new ones

A founded swarm takes its members off the surplus, and what moves between swarms while they are
mended never adds enough to it to found another. Between the numbers in use there is always room
for one more. Main statements:

* `SwarmMap.surplus_take`: a node taken from a largest swarm is one of the surplus, while there is
  any;
* `SwarmMap.surplus_lends`, `SwarmMap.surplus_dissolve_lt`: mending leaves no new surplus;
* `SwarmMap.freshId_not_mem_keys`: a new swarm's number is not in use.
-/

set_option autoImplicit false

namespace StakeRegistry

namespace SwarmMap

variable {swarms : SwarmMap} {id target : Nat} {nodes ms ms' rest : List PublicKey}
  {node : PublicKey}

/-! ## The surplus of a changed map -/

theorem surplus_insert (swarms : SwarmMap) (id : Nat) (ms : List PublicKey) :
    surplus (swarms.insert id ms) = (ms.length - idealSwarmSize) + surplus (swarms.erase id) := by
  have hperm := ((SortedMap.toList_insert_perm swarms id ms).map (·.2)).map
    fun members => members.length - idealSwarmSize
  exact hperm.sum_nat

theorem surplus_of_get? (hid : swarms.get? id = some ms) :
    swarms.surplus = (ms.length - idealSwarmSize) + surplus (swarms.erase id) := by
  have hperm := ((SortedMap.toList_perm_of_get? hid).map (·.2)).map
    fun members => members.length - idealSwarmSize
  exact hperm.sum_nat

/-- A new swarm that is not too large adds nothing. -/
theorem surplus_found (hfree : id ∉ swarms.keys) (hms : ms.length ≤ idealSwarmSize) :
    surplus (swarms.insert id ms) = swarms.surplus := by
  rw [surplus_insert, erase_of_not_mem hfree, Nat.sub_eq_zero_of_le hms, Nat.zero_add]

theorem size_found (hfree : id ∉ swarms.keys) (ms : List PublicKey) :
    SortedMap.size (swarms.insert id ms) = swarms.size + 1 := by
  have hlength := (SortedMap.toList_insert_perm swarms id ms).length_eq
  rwa [erase_of_not_mem hfree, List.length_cons] at hlength

/-- Of a swarm that takes the place of another, only its own part in the surplus changes. -/
theorem surplus_replace (hid : swarms.get? id = some ms) (ms' : List PublicKey) :
    surplus (swarms.insert id ms') + (ms.length - idealSwarmSize) =
      swarms.surplus + (ms'.length - idealSwarmSize) := by
  rw [surplus_insert, surplus_of_get? hid]
  omega

theorem surplus_eq_zero_iff :
    swarms.surplus = 0 ↔ ∀ s ∈ swarms.toList, s.2.length ≤ idealSwarmSize := by
  unfold surplus SortedMap.values
  refine List.sum_eq_zero_iff.trans ?_
  rw [List.map_map, List.forall_mem_map]
  simp only [Function.comp, Nat.sub_eq_zero_iff_le]

theorem surplus_le_length_members (swarms : SwarmMap) :
    swarms.surplus ≤ swarms.members.length := by
  unfold surplus members
  rw [List.length_flatten]
  exact List.sum_le_sum fun ms _ => Nat.sub_le _ _

/-! ## Members taken and lent -/

/-- While there is a surplus, a member taken from a largest swarm is one of it. -/
theorem surplus_take (hsurplus : 0 < swarms.surplus) (hid : swarms.largest? = some (id, ms))
    (hrest : rest.length + 1 = ms.length) :
    surplus (swarms.insert id rest) + 1 = swarms.surplus := by
  have hlarge : idealSwarmSize < ms.length := by
    by_contra hsmall
    refine absurd (surplus_eq_zero_iff.2 fun s hs => ?_) (Nat.ne_of_gt hsurplus)
    exact Nat.le_trans (le_of_maxOn? hid s hs) (Nat.le_of_not_lt hsmall)
  have hreplace := surplus_replace (SortedMap.get?_eq_some_iff.2 (List.maxOn?_mem hid)) rest
  omega

theorem exists_largest (hsurplus : 0 < swarms.surplus) :
    ∃ id ms, swarms.largest? = some (id, ms) ∧ ms ≠ [] := by
  cases hlargest : swarms.largest? with
  | none =>
      rw [largest?, maxOn?_eq_none_iff] at hlargest
      refine absurd (surplus_eq_zero_iff.2 fun s hs => ?_) (Nat.ne_of_gt hsurplus)
      rw [hlargest] at hs
      cases hs
  | some s =>
      refine ⟨s.1, s.2, rfl, fun hnil => ?_⟩
      refine absurd (surplus_eq_zero_iff.2 fun s' hs' => ?_) (Nat.ne_of_gt hsurplus)
      have hle := le_of_maxOn? hlargest s' hs'
      rw [hnil] at hle
      exact Nat.le_trans hle (Nat.zero_le _)

/-- A member who moves to a swarm that is too small adds nothing to the surplus. -/
theorem surplus_lends {swarms' : SwarmMap} (h : Lends swarms target swarms')
    (hsmall : target ∈ swarms.undersized) : swarms'.surplus ≤ swarms.surplus := by
  obtain ⟨ms, hms, hlength⟩ := mem_undersized.1 hsmall
  cases h with
  | @one id donated rest node other donor spare taken =>
      have hkept : (swarms.insert id rest).get? target = some ms := by
        rw [SortedMap.get?_insert_of_ne _ _ other.symm, hms]
      have hgiven := surplus_replace donor rest
      have htaken := surplus_replace hkept (ms ++ [node])
      have hrest := taken.length_eq
      rw [hms, Option.getD_some]
      rw [List.length_append, List.length_singleton] at htaken
      rw [List.length_cons] at hrest
      unfold minSwarmSize idealSwarmSize at *
      omega

theorem surplus_join_le (swarms : SwarmMap) (node : PublicKey) :
    surplus (swarms.join node) ≤ swarms.surplus + 1 := by
  by_cases hswarms : swarms.toList = []
  · rw [join_of_nil hswarms]
    exact Nat.le_succ _
  · obtain ⟨id, ms, hid, heq⟩ := join_eq hswarms node
    have hreplace := surplus_replace hid (ms ++ [node])
    rw [List.length_append, List.length_singleton] at hreplace
    rw [heq]
    omega

theorem surplus_foldl_join_le (nodes : List PublicKey) (swarms : SwarmMap) :
    surplus (nodes.foldl join swarms) ≤ swarms.surplus + nodes.length := by
  induction nodes generalizing swarms with
  | nil => exact Nat.le_refl _
  | cons node nodes ih =>
      have hjoin := surplus_join_le swarms node
      have hrest := ih (swarms.join node)
      rw [List.foldl_cons, List.length_cons]
      omega

/-- A swarm is dissolved when none of the others can spare a member; its own members are too few
to make up a surplus of a whole swarm. -/
theorem surplus_dissolve_lt (hsmall : target ∈ swarms.undersized)
    (hnone : swarms.donor? target = none) : (swarms.dissolve target).surplus < idealSwarmSize := by
  obtain ⟨ms, hms, hlength⟩ := mem_undersized.1 hsmall
  have hothers : surplus (swarms.erase target) = 0 := by
    refine surplus_eq_zero_iff.2 fun s hs => ?_
    have hget := SortedMap.get?_eq_some_iff.2 (show (s.1, s.2) ∈ _ from hs)
    rw [SortedMap.get?_erase] at hget
    split at hget
    · cases hget
    · rename_i hne
      rw [donor?, maxOn?_eq_none_iff, List.filter_eq_nil_iff] at hnone
      have hspare := hnone s (SortedMap.get?_eq_some_iff.1 hget)
      simp only [Bool.and_eq_true, bne_iff_ne, decide_eq_true_eq, not_and, Nat.not_lt] at hspare
      exact Nat.le_trans (hspare hne) (show minSwarmSize ≤ idealSwarmSize by decide)
  have hjoined := surplus_foldl_join_le ms (swarms.erase target)
  unfold dissolve
  rw [hms, Option.getD_some]
  unfold minSwarmSize idealSwarmSize at *
  omega

/-! ## Numbers of new swarms -/

/-- Numbers that grow by one at most from each to the next do not get far. -/
theorem le_of_gaps (first : Nat) (numbers : List Nat)
    (h : ∀ gap ∈ (first :: numbers).zip numbers, gap.2 - gap.1 ≤ 1) :
    ∀ n ∈ first :: numbers, n ≤ first + numbers.length := by
  induction numbers generalizing first with
  | nil => simp
  | cons next numbers ih =>
      rw [List.zip_cons_cons, List.forall_mem_cons] at h
      have hnext := h.1
      have hrest := ih next h.2
      dsimp only at hnext
      intro n hn
      rw [List.length_cons]
      rcases List.mem_cons.1 hn with rfl | hn
      · exact Nat.le_add_right _ _
      · have hle := hrest n hn
        omega

/-- Between neighbours of an ascending list there is nothing. -/
theorem not_mem_of_gap {numbers : List Nat} (hsorted : numbers.Pairwise (· ≤ ·))
    {low high n : Nat} (hgap : (low, high) ∈ numbers.zip numbers.tail) (hlow : low < n)
    (hhigh : n < high) : n ∉ numbers := by
  induction numbers with
  | nil => simp
  | cons first numbers ih =>
      obtain ⟨hfirst, hrest⟩ := List.pairwise_cons.1 hsorted
      cases numbers with
      | nil => cases hgap
      | cons next numbers =>
          rw [List.tail_cons, List.zip_cons_cons, List.mem_cons] at hgap
          intro hn
          rcases hgap with hgap | hgap
          · obtain ⟨rfl, rfl⟩ := Prod.mk.inj hgap
            rcases List.mem_cons.1 hn with rfl | hn
            · exact Nat.lt_irrefl _ hlow
            · rcases List.mem_cons.1 hn with rfl | hn
              · exact Nat.lt_irrefl _ hhigh
              · exact absurd ((List.pairwise_cons.1 hrest).1 n hn) (Nat.not_le_of_lt hhigh)
          · rcases List.mem_cons.1 hn with rfl | hn
            · exact absurd (hfirst low (List.of_mem_zip hgap).1) (Nat.not_le_of_lt hlow)
            · exact ih hrest hgap hn

theorem pairwise_keys (swarms : SwarmMap) : swarms.keys.Pairwise (· < ·) :=
  List.pairwise_map.2 (swarms.ascending.imp Nat.compare_eq_lt.1)

/-- The numbers in use leave a gap, as there are too few of them to fill the whole range. -/
theorem freshId_not_mem_keys (hnumbered : swarms.Numbered)
    (hfew : swarms.size + 1 < unassignedSwarm) : swarms.freshId ∉ swarms.keys := by
  unfold freshId
  split
  · rename_i hempty
    rw [SortedMap.keys, List.isEmpty_iff.1 hempty]
    exact List.not_mem_nil
  · have hsorted : (0 :: swarms.keys ++ [unassignedSwarm]).Pairwise (· ≤ ·) := by
      refine List.pairwise_append.2 ⟨List.pairwise_cons.2 ⟨fun n _ => Nat.zero_le n,
        swarms.pairwise_keys.imp Nat.le_of_lt⟩, List.pairwise_singleton _ _, fun n hn u hu => ?_⟩
      rw [List.mem_singleton.1 hu]
      rcases List.mem_cons.1 hn with rfl | hn
      · exact Nat.zero_le _
      · exact Nat.le_of_lt (hnumbered n hn)
    have hlength : (swarms.keys ++ [unassignedSwarm]).length = swarms.size + 1 := by
      rw [List.length_append, ← size_eq_length_keys, List.length_singleton]
    dsimp only
    split
    · rename_i low high hwidest
      have hgap := List.maxOn?_mem hwidest
      have hwide : 1 < high - low := by
        -- If the widest gap is no gap, the numbers go up one by one and do not get to the last.
        by_contra hnarrow
        have hfar := le_of_gaps 0 (swarms.keys ++ [unassignedSwarm])
          (fun gap hgap => Nat.le_trans (le_of_maxOn? hwidest gap hgap)
            (Nat.le_of_not_lt hnarrow)) unassignedSwarm (by simp)
        omega
      have hfree := not_mem_of_gap hsorted hgap
        (show low < low + (high - low) / 2 by omega) (show low + (high - low) / 2 < high by omega)
      exact fun hmem => hfree (List.mem_append_left _ (List.mem_cons_of_mem _ hmem))
    · rename_i hnone
      rw [maxOn?_eq_none_iff] at hnone
      have hzip := congrArg List.length hnone
      simp at hzip

end SwarmMap

end StakeRegistry
