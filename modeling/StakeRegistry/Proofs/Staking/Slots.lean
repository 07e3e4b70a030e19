import Mathlib.Data.List.Nodup
import StakeRegistry.Proofs.Staking.Crediting

/-!
# The slot that a stake goes to

A stake is credited to the slot of its address, which is opened for a new address. The slot's
contributor gains the outputs that the stake locks; every other slot stays as it is. Main
statements:

* `NodeInfo.withSlot_cases`: the slot of an address, found or opened;
* `NodeInfo.creditStake_slot`: what crediting does to the slot and to the totals;
* `NodeInfo.lockedContributions_creditStake`: and to the locked contributions of the node.
-/

set_option autoImplicit false

namespace StakeRegistry

/-- Extending what one item of a list holds extends what the list holds. -/
theorem flatMap_set_perm {α β : Type} (f : α → List β) {l : List α} {i : Nat} {old new : α}
    {more : List β} (h : l[i]? = some old) (hnew : f new = f old ++ more) :
    ((l.set i new).flatMap f).Perm (l.flatMap f ++ more) := by
  induction l generalizing i with
  | nil => simp at h
  | cons a rest ih =>
      cases i with
      | zero =>
          obtain rfl : a = old := by simpa using h
          rw [List.set_cons_zero, List.flatMap_cons, List.flatMap_cons, hnew, List.append_assoc,
            List.append_assoc]
          exact List.perm_append_comm.append_left _
      | succ i =>
          have hrest := ih (i := i) (by simpa using h)
          rw [List.set_cons_succ, List.flatMap_cons, List.flatMap_cons, List.append_assoc]
          exact hrest.append_left _

/-- What a fork locks of a stake. -/
def Stake.lockedAt (stake : Stake) (fork : HardFork) : List LockedContribution :=
  if HardFork.infiniteStaking ≤ fork then stake.locked else []

namespace NodeInfo

/-- The slot of an address is that of a contributor with it. -/
theorem getElem?_of_slot? {info : NodeInfo} {address : Address} {c : Contributor} {position : Nat}
    (h : info.slot? address = some (c, position)) :
    info.contributors[position]? = some c ∧ c.address = address := by
  have hslot := List.mem_filter.1 (List.mem_of_getLast? h)
  exact ⟨List.mem_zipIdx_iff_getElem?.1 hslot.1, by simpa using hslot.2⟩

/-- An address has a slot, or one is opened for it behind the others. -/
theorem withSlot_cases (info : NodeInfo) (address : Address) :
    (∃ c position, info.slot? address = some (c, position) ∧
      info.withSlot address = (info, position)) ∨
    (info.slot? address = none ∧ info.withSlot address =
      ({ info with contributors := info.contributors ++ [Contributor.reserving 0 address] },
        info.contributors.length)) := by
  unfold withSlot
  cases hslot : info.slot? address with
  | none => exact Or.inr ⟨rfl, rfl⟩
  | some slot => exact Or.inl ⟨slot.1, slot.2, rfl, rfl⟩

/-- Where no two contributors share an address, each has the slot of theirs. -/
theorem exists_position_of_mem {info : NodeInfo}
    (hdistinct : (info.contributors.map (·.address)).Nodup) {c : Contributor}
    (hc : c ∈ info.contributors) :
    ∃ position, info.slot? c.address = some (c, position) ∧
      info.contributors[position]? = some c ∧ info.withSlot c.address = (info, position) := by
  rcases info.withSlot_cases c.address with ⟨c', position, hslot, heq⟩ | ⟨hslot, -⟩
  · obtain ⟨hposition, haddress⟩ := getElem?_of_slot? hslot
    obtain rfl : c' = c :=
      List.inj_on_of_nodup_map hdistinct (List.mem_of_getElem? hposition) hc haddress
    exact ⟨position, hslot, hposition, heq⟩
  · exact absurd rfl (forall_ne_of_slot? hslot c hc)

/-- The contributor whose slot a stake of an address goes to. -/
theorem exists_slot (info : NodeInfo) (address : Address) :
    ∃ c, (info.withSlot address).1.contributors[(info.withSlot address).2]? = some c ∧
      c.address = address := by
  rcases info.withSlot_cases address with ⟨c, position, hslot, heq⟩ | ⟨-, heq⟩
  · rw [heq]
    exact ⟨c, getElem?_of_slot? hslot⟩
  · rw [heq]
    exact ⟨Contributor.reserving 0 address, by simp, rfl⟩

/-- Opening a slot locks nothing. -/
theorem lockedContributions_withSlot (info : NodeInfo) (address : Address) :
    (info.withSlot address).1.lockedContributions = info.lockedContributions := by
  rcases info.withSlot_cases address with ⟨c, position, -, heq⟩ | ⟨-, heq⟩
  · rw [heq]
  · rw [heq]
    simp [lockedContributions, Contributor.reserving]

/-- A stake is credited to the contributor of its slot, and the totals follow. -/
theorem creditStake_slot (info : NodeInfo) (fork : HardFork) (height index : Nat)
    (stake : Stake) {old : Contributor}
    (hold : (info.withSlot stake.address).1.contributors[(info.withSlot stake.address).2]?
      = some old) :
    let new := old.credit stake.transferred (info.stakingRequirement - info.totalReserved)
      (stake.lockedAt fork)
    let info' := info.creditStake fork height index stake
    info'.contributors =
        (info.withSlot stake.address).1.contributors.set (info.withSlot stake.address).2 new ∧
      info'.totalContributed = info.totalContributed + (new.amount - old.amount) ∧
      info'.totalReserved = info.totalReserved + (new.reserved - old.reserved) ∧
      info'.stakingRequirement = info.stakingRequirement := by
  have hsame := info.sameStakes_creditStake fork height index stake
  have hterms : (info.withSlot stake.address).1.totalContributed = info.totalContributed ∧
      (info.withSlot stake.address).1.totalReserved = info.totalReserved ∧
      (info.withSlot stake.address).1.stakingRequirement = info.stakingRequirement := by
    rcases info.withSlot_cases stake.address with ⟨c, position, -, heq⟩ | ⟨-, heq⟩ <;> rw [heq] <;>
      exact ⟨rfl, rfl, rfl⟩
  obtain ⟨hcontributed, hreserved, hrequirement⟩ := hterms
  dsimp only
  rw [hsame.contributors, hsame.totalContributed, hsame.totalReserved, hsame.stakingRequirement]
  unfold creditAtSlot
  rw [hold, ← hcontributed, ← hreserved, ← hrequirement]
  exact ⟨rfl, rfl, rfl, rfl⟩

/-- A credited stake adds what it locks to the locked contributions of the node. -/
theorem lockedContributions_creditStake (info : NodeInfo) (fork : HardFork) (height index : Nat)
    (stake : Stake) :
    (info.creditStake fork height index stake).lockedContributions.Perm
      (info.lockedContributions ++ stake.lockedAt fork) := by
  obtain ⟨old, hold, -⟩ := info.exists_slot stake.address
  have hcontributors := (info.creditStake_slot fork height index stake hold).1
  unfold lockedContributions
  rw [hcontributors, ← lockedContributions, ← info.lockedContributions_withSlot stake.address]
  refine flatMap_set_perm (·.locked) hold ?_
  rfl

end NodeInfo

end StakeRegistry
