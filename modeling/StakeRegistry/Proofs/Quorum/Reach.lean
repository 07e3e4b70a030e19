import Mathlib.Data.List.Nodup
import StakeRegistry.Proofs.Quorum.Forming

/-!
# How far a Pulse quorum reaches

The nodes that are left to validate beside a producer stand in the order of their turns
(`pulseBench`). The validators are swapped to the front one after the other, each from less than
half of them behind its slot, so no node is drawn from far behind the middle
(`reach_of_complete`): those at the end of the order sit out.
-/

set_option autoImplicit false

namespace StakeRegistry

/-! ## The order of turns -/

instance : Std.TransOrd PulseSorter :=
  inferInstanceAs (Std.TransCmp (compareLex (compareOn PulseSorter.lastHeight)
    (compareOn PulseSorter.position)))

instance : Std.TransCmp pulseOrder :=
  inferInstanceAs (Std.TransCmp (compareLex
    (compareOn fun n : PublicKey × NodeInfo => n.2.pulseSorter) (compareOn (·.1))))

/-- Nodes of one place in the order have one key. -/
theorem key_eq_of_pulseOrder {a b : PublicKey × NodeInfo} (h : pulseOrder a b = .eq) :
    a.1 = b.1 :=
  Std.LawfulEqCmp.eq_of_compare (Ordering.then_eq_eq.1 h).2

theorem pulseOrder_total (a b : PublicKey × NodeInfo) :
    ((pulseOrder a b).isLE || (pulseOrder b a).isLE) = true := by
  rw [show pulseOrder b a = (pulseOrder a b).swap from Std.OrientedCmp.eq_swap]
  cases pulseOrder a b <;> rfl

theorem pairwise_mergeSort_pulseOrder (nodes : NodeList) :
    (nodes.mergeSort fun a b => (pulseOrder a b).isLE).Pairwise
      fun a b => (pulseOrder a b).isLE = true :=
  List.pairwise_mergeSort (fun _ _ _ => Std.TransCmp.isLE_trans) pulseOrder_total nodes

/-- The nodes left to validate beside a producer, in the order of their turns. -/
def pulseBench (active : NodeList) (producer : PublicKey) : NodeList :=
  (active.filter fun n => n.1 != producer).mergeSort fun a b => (pulseOrder a b).isLE

theorem pulseBench_perm (active : NodeList) (producer : PublicKey) :
    (pulseBench active producer).Perm (active.filter fun n => n.1 != producer) :=
  List.mergeSort_perm _ _

theorem pairwise_pulseBench (active : NodeList) (producer : PublicKey) :
    (pulseBench active producer).Pairwise fun a b => (pulseOrder a b).isLE = true :=
  pairwise_mergeSort_pulseOrder _

/-- What the draw of a producer leaves over is the bench. -/
theorem eq_pulseBench_of_drawProducer {fork : HardFork} {leader producer : PublicKey} {e : Hash}
    {round : Nat} {active others : NodeList} (hdistinct : active.keys.Nodup)
    (h : drawProducer fork leader e round (pulseCandidates leader active round) =
      some (producer, others)) : others = pulseBench active producer := by
  unfold drawProducer at h
  split at h
  · rename_i hround
    cases h
    simp [pulseCandidates, pulseBench, hround]
  · rename_i hround
    obtain ⟨node, hnode, h⟩ := Option.map_eq_some_iff.1 h
    cases h
    have hcandidates := nodup_pulseCandidates hdistinct leader round
    have hall := pulseCandidates_perm_active (Nat.pos_of_ne_zero hround) leader active
    rw [NodeList.eraseIdx_eq_filter hcandidates hnode]
    -- Both are sorted and hold the same nodes, no two of them under one key.
    refine List.Perm.eq_of_pairwise (fun a b ha hb hab hba => ?_)
      ((pairwise_mergeSort_pulseOrder _).filter _) (pairwise_pulseBench active node.1)
      ((hall.filter _).trans (pulseBench_perm active node.1).symm)
    have ha := hall.mem_iff.1 (List.mem_of_mem_filter ha)
    have hb := List.mem_of_mem_filter ((pulseBench_perm active node.1).mem_iff.1 hb)
    have heq : pulseOrder a b = .eq := Std.OrientedCmp.isLE_antisymm hab hba
    exact List.inj_on_of_nodup_map hdistinct ha hb (key_eq_of_pulseOrder heq)

/-! ## How far swaps reach -/

/-- A swap within the first `k` items rearranges these. -/
theorem swapItems_take_perm {α : Type} (items : List α) {i j k : Nat} (hi : i < k) (hj : j < k) :
    ((swapItems items i j).take k).Perm (items.take k) := by
  have hcommutes : (swapItems items i j).take k = swapItems (items.take k) i j := by
    unfold swapItems
    rw [List.getElem?_take_of_lt hi, List.getElem?_take_of_lt hj]
    split
    · rw [List.take_set, List.take_set]
    · rfl
  rw [hcommutes]
  exact swapItems_perm _ i j

/-- Drawing validators rearranges the candidates up to `half` behind the last slot. -/
theorem take_drawValidators_perm {fork : HardFork} {half slot k : Nat} {entropy : List Hash}
    {candidates : NodeList} (hhalf : 0 < half)
    (hslots : slot + entropy.length ≤ candidates.length)
    (hreach : slot + entropy.length + half ≤ k + 1) :
    ((drawValidators fork half slot entropy candidates).take k).Perm (candidates.take k) := by
  induction entropy generalizing slot candidates with
  | nil => exact .refl _
  | cons e rest ih =>
      rw [List.length_cons] at hslots hreach
      unfold drawValidators
      dsimp only
      generalize hoffset : (drawBelow (min half (candidates.length - slot))
        (quorumGenerator fork e .pulse)).1 = offset
      have hnear : offset < half := by
        have havailable : 0 < min half (candidates.length - slot) := by omega
        have hbelow := drawBelow_lt havailable (quorumGenerator fork e .pulse)
        omega
      have hlength : (swapItems candidates slot (slot + offset)).length = candidates.length :=
        (swapItems_perm candidates slot (slot + offset)).length_eq
      have hrest : ((drawValidators fork half (slot + 1) rest
          (swapItems candidates slot (slot + offset))).take k).Perm
            ((swapItems candidates slot (slot + offset)).take k) := ih (by omega) (by omega)
      exact hrest.trans (swapItems_take_perm candidates (by omega) (by omega))

/-- The validators drawn from `n` candidates are eleven of the first `(n - 1) / 2 + 10`. -/
theorem drawValidators_reach (fork : HardFork) {candidates : NodeList} {entropy : List Hash}
    (hentropy : entropy.length = 11) (henough : 11 ≤ candidates.length) :
    ((drawValidators fork ((candidates.length - 1) / 2) 0 entropy candidates).take 11).length =
        11 ∧
      ∀ n ∈ (drawValidators fork ((candidates.length - 1) / 2) 0 entropy candidates).take 11,
        n ∈ candidates.take ((candidates.length - 1) / 2 + 10) := by
  have hperm : ((drawValidators fork ((candidates.length - 1) / 2) 0 entropy candidates).take
      ((candidates.length - 1) / 2 + 10)).Perm
        (candidates.take ((candidates.length - 1) / 2 + 10)) :=
    take_drawValidators_perm (by omega) (by omega) (by omega)
  refine ⟨?_, fun n hn => hperm.mem_iff.1 ?_⟩
  · rw [List.length_take, (drawValidators_perm _ _ _ _ _).length_eq]
    omega
  · exact (List.take_sublist_take_left (by omega)).subset hn

/-- So the validators of a complete Pulse quorum are among the first nodes of the bench that its
producer leaves. -/
theorem reach_of_complete {minNodes : Nat} {leader : PublicKey} {fork : HardFork}
    {active : NodeList} {entropy : List Hash} {round : Nat} (hdistinct : active.keys.Nodup)
    (h : (pulseQuorum minNodes leader fork active entropy round).isCompletePulse = true) :
    ∃ producer, (pulseQuorum minNodes leader fork active entropy round).workers = [producer] ∧
      11 ≤ (pulseBench active producer).length ∧
      ∀ key ∈ (pulseQuorum minNodes leader fork active entropy round).validators,
        key ∈ NodeList.keys ((pulseBench active producer).take
          (((pulseBench active producer).length - 1) / 2 + 10)) := by
  obtain ⟨-, -, -, first, rest, producer, others, -, hrest, hproducer, henough, hquorum⟩ :=
    exists_draw_of_complete h
  cases eq_pulseBench_of_drawProducer hdistinct hproducer
  refine ⟨producer, by rw [hquorum], henough, fun key hkey => ?_⟩
  rw [hquorum] at hkey
  obtain ⟨n, hn, rfl⟩ := List.mem_map.1 hkey
  exact List.mem_map_of_mem ((drawValidators_reach fork hrest henough).2 n hn)

end StakeRegistry
