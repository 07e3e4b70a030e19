import Mathlib.Data.List.Nodup
import Mathlib.Data.List.Pairwise
import Mathlib.Data.List.Perm.Subperm
import Mathlib.Order.Fin.Basic
import StakeRegistry.Proofs.Staking.Crediting

/-!
# Outputs and proofs are used once

A stake of key images counts the outputs that are addressed to its contributor, hold something,
and have a proof that verifies. The outputs are taken in their order, and each takes the first
proof that is left and verifies for it. So every contribution has an output and a proof to itself,
and an output that makes no contribution could make none with any proof that was left. Main
statements:

* `Stake.exists_uses`: which outputs and proofs the locked contributions come from;
* `Stake.exists_matching_of_ofTransaction?`: the same for the stake of a transaction, with places
  for each.
-/

set_option autoImplicit false

namespace StakeRegistry

namespace Stake

variable {suite : CryptoSuite} {secret : SharedSecret} {address : Address}

/-- The output at a place and a proof make a contribution: the output's key is the one derived
for its place, the amount is what the output is decoded to, and not zero, and the proof verifies
its own key image under that key. -/
structure Locks (suite : CryptoSuite) (secret : SharedSecret) (address : Address)
    (output : TxOutput) (place : Nat) (proof : KeyImageProof) (l : LockedContribution) : Prop where
  key : l.key = output.key
  derived : suite.outputKey? secret place address.spend = some l.key
  decoded : suite.outputAmount? secret place output = some l.amount
  amount_ne_zero : l.amount ≠ 0
  keyImage : l.keyImage = proof.keyImage
  verified : suite.verifyKeyImage proof.keyImage l.key proof.signature = true

/-! ## One output -/

section Proofs

variable {α : Type} {proofOf : α → KeyImageProof} {accepts : KeyImageProof → Bool}

/-- A proof that is taken is one of those at hand, and the others are left. -/
theorem exists_of_takeProof {unused : List α} {proof : KeyImageProof} {left : List KeyImageProof}
    (h : takeProof accepts (unused.map proofOf) = some (proof, left)) :
    ∃ a others, unused.Perm (a :: others) ∧ proofOf a = proof ∧ others.map proofOf = left ∧
      accepts proof = true := by
  induction unused generalizing proof left with
  | nil => cases h
  | cons a unused ih =>
      rw [List.map_cons, takeProof] at h
      split at h
      · rename_i haccepts
        cases h
        exact ⟨a, unused, .refl _, rfl, rfl, haccepts⟩
      · obtain ⟨⟨found, rest⟩, hfound, h⟩ := Option.map_eq_some_iff.1 h
        cases h
        obtain ⟨b, others, hperm, hproof, hrest, haccepts⟩ := ih hfound
        refine ⟨b, a :: others, (hperm.cons a).trans (.swap b a others), hproof, ?_, haccepts⟩
        rw [List.map_cons, hrest]

/-- When no proof is taken, none at hand is accepted. -/
theorem eq_false_of_takeProof {proofs : List KeyImageProof} (h : takeProof accepts proofs = none) :
    ∀ proof ∈ proofs, accepts proof = false := by
  induction proofs with
  | nil => nofun
  | cons proof proofs ih =>
      rw [takeProof] at h
      split at h
      · cases h
      · rename_i hrefused
        rw [Option.map_eq_none_iff] at h
        exact List.forall_mem_cons.2 ⟨Bool.eq_false_iff.2 hrefused, ih h⟩

theorem exists_of_lockOutput? {place : Nat} {output : TxOutput} {unused : List α}
    {l : LockedContribution} {left : List KeyImageProof}
    (h : lockOutput? suite secret address place output (unused.map proofOf) = some (l, left)) :
    ∃ a others, unused.Perm (a :: others) ∧ others.map proofOf = left ∧
      Locks suite secret address output place (proofOf a) l := by
  unfold lockOutput? at h
  dsimp only at h
  split at h
  · cases h
  · rename_i hamount
    split at h
    · cases h
    · rename_i key hderived
      split at h
      · cases h
      · rename_i hkey
        obtain ⟨⟨proof, rest⟩, htaken, h⟩ := Option.map_eq_some_iff.1 h
        cases h
        obtain ⟨a, others, hperm, rfl, hrest, hverified⟩ := exists_of_takeProof htaken
        refine ⟨a, others, hperm, hrest, (Decidable.not_not.1 hkey).symm, hderived, ?_, hamount,
          rfl, hverified⟩
        -- An output that cannot be decoded counts as empty, and this one does not.
        unfold amountOf at hamount ⊢
        cases hdecoded : suite.outputAmount? secret place output with
        | none => simp [hdecoded] at hamount
        | some amount => rfl

/-- An output that takes no proof makes no contribution with any of them. -/
theorem not_locks_of_lockOutput? {place : Nat} {output : TxOutput} {proofs : List KeyImageProof}
    (h : lockOutput? suite secret address place output proofs = none) :
    ∀ proof ∈ proofs, ∀ l, ¬ Locks suite secret address output place proof l := by
  intro proof hproof l hlocks
  have hamount : amountOf suite secret place output = l.amount := by
    rw [amountOf, hlocks.decoded, Option.getD_some]
  unfold lockOutput? at h
  dsimp only at h
  rw [hamount, if_neg hlocks.amount_ne_zero, hlocks.derived] at h
  dsimp only at h
  rw [if_neg (not_not_intro hlocks.key.symm), Option.map_eq_none_iff] at h
  have hrefused := eq_false_of_takeProof h proof hproof
  rw [hlocks.verified] at hrefused
  cases hrefused

end Proofs

/-! ## All outputs -/

/-- One use of an output and of a proof, each with its place, and what they make. -/
structure Use where
  output : TxOutput × Nat
  proof : KeyImageProof × Nat
  locked : LockedContribution

/-- Uses of outputs in their order and of proofs that are at hand, none of them used twice. -/
structure Uses (suite : CryptoSuite) (secret : SharedSecret) (address : Address)
    (outputs : List (TxOutput × Nat)) (unused : List (KeyImageProof × Nat)) (uses : List Use) :
    Prop where
  outputs_sublist : (uses.map (·.output)).Sublist outputs
  proofs_subperm : (uses.map (·.proof)).Subperm unused
  locks : ∀ u ∈ uses, Locks suite secret address u.output.1 u.output.2 u.proof.1 u.locked
  /-- An output that is not used makes no contribution with a proof that the outputs in front of
  it have left over. -/
  rest : ∀ o ∈ outputs, o ∉ uses.map (·.output) →
    ∀ p ∈ unused, (∀ u ∈ uses, u.output.2 < o.2 → u.proof ≠ p) →
      ∀ l, ¬ Locks suite secret address o.1 o.2 p.1 l

theorem exists_uses (suite : CryptoSuite) (secret : SharedSecret) (address : Address)
    (outputs : List TxOutput) (place : Nat) (unused : List (KeyImageProof × Nat)) :
    ∃ uses, Uses suite secret address (outputs.zipIdx place) unused uses ∧
      uses.map (·.locked) = lockOutputs suite secret address place outputs (unused.map (·.1)) := by
  -- Over the outputs, with the proofs that are left.
  induction outputs generalizing place unused with
  | nil => exact ⟨[], ⟨.refl _, List.nil_subperm, nofun, nofun⟩, rfl⟩
  | cons output outputs ih =>
      unfold lockOutputs
      rw [List.zipIdx_cons]
      split
      · rename_i l left hlocks
        obtain ⟨p, others, hperm, rfl, hp⟩ := exists_of_lockOutput? hlocks
        obtain ⟨uses, huses, hlocked⟩ := ih (place + 1) others
        refine ⟨⟨(output, place), p, l⟩ :: uses, ⟨?_, ?_, ?_, ?_⟩, ?_⟩
        case refine_1 => exact huses.outputs_sublist.cons_cons _
        case refine_2 =>
          exact ((List.subperm_cons p).2 huses.proofs_subperm).trans hperm.symm.subperm
        case refine_3 => exact List.forall_mem_cons.2 ⟨hp, huses.locks⟩
        case refine_4 =>
          intro o ho hfree q hq hleft
          rw [List.map_cons, List.mem_cons, not_or] at hfree
          have ho := (List.mem_cons.1 ho).resolve_left hfree.1
          obtain ⟨hused, hleft⟩ := List.forall_mem_cons.1 hleft
          -- The first output stands in front of this one, so its proof is not among those left.
          have hlater := (List.mem_zipIdx ho).1
          have hq := (List.mem_cons.1 (hperm.mem_iff.1 hq)).resolve_left
            (hused (Nat.lt_of_succ_le hlater)).symm
          exact huses.rest o ho hfree.2 q hq hleft
        case refine_5 => rw [List.map_cons, hlocked]
      · rename_i hnone
        obtain ⟨uses, huses, hlocked⟩ := ih (place + 1) unused
        refine ⟨uses, ⟨huses.outputs_sublist.cons _, huses.proofs_subperm, huses.locks, ?_⟩,
          hlocked⟩
        intro o ho hfree p hp hleft
        rcases List.mem_cons.1 ho with rfl | ho
        · exact not_locks_of_lockOutput? hnone p.1 (List.mem_map_of_mem hp)
        · exact huses.rest o ho hfree p hp hleft

/-! ## Places of outputs and of proofs -/

/-- Contributions that come from outputs, in their order, and from proofs, no two of them from one
output or from one proof. -/
structure Matching (suite : CryptoSuite) (secret : SharedSecret) (address : Address)
    (outputs : List TxOutput) (proofs : List KeyImageProof) (locked : List LockedContribution)
    (outputOf : Fin locked.length → Fin outputs.length)
    (proofOf : Fin locked.length → Fin proofs.length) : Prop where
  strictMono_outputOf : StrictMono outputOf
  injective_proofOf : Function.Injective proofOf
  locks : ∀ i, Locks suite secret address outputs[outputOf i] (outputOf i) proofs[proofOf i]
    locked[i]
  /-- An output without a contribution makes none with any proof that the outputs in front of it
  have left over. -/
  rest : ∀ j, (∀ i, outputOf i ≠ j) → ∀ q, (∀ i, outputOf i < j → proofOf i ≠ q) →
    ∀ l, ¬ Locks suite secret address outputs[j] j proofs[q] l

section Places

variable {outputs : List TxOutput} {proofs : List KeyImageProof} {uses : List Use}
  (h : Uses suite secret address outputs.zipIdx proofs.zipIdx uses)

include h

theorem Uses.getElem?_output : ∀ u ∈ uses, outputs[u.output.2]? = some u.output.1 := fun _ hu =>
  List.mem_zipIdx_iff_getElem?.1 (h.outputs_sublist.subset (List.mem_map_of_mem hu))

theorem Uses.getElem?_proof : ∀ u ∈ uses, proofs[u.proof.2]? = some u.proof.1 := fun _ hu =>
  List.mem_zipIdx_iff_getElem?.1 (h.proofs_subperm.subset (List.mem_map_of_mem hu))

theorem Uses.pairwise_output : uses.Pairwise fun u v => u.output.2 < v.output.2 := by
  have hplaces := h.outputs_sublist.map (·.2)
  rw [List.zipIdx_map_snd, List.map_map] at hplaces
  exact List.pairwise_map.1 ((List.pairwise_lt_range' ..).sublist hplaces)

theorem Uses.pairwise_proof : uses.Pairwise fun u v => u.proof.2 ≠ v.proof.2 := by
  obtain ⟨used, hperm, hsublist⟩ := h.proofs_subperm
  have hplaces := hsublist.map (·.2)
  rw [List.zipIdx_map_snd] at hplaces
  have hnodup := (hperm.map (·.2)).nodup_iff.1 (hplaces.nodup (List.nodup_range' ..))
  rw [List.map_map] at hnodup
  exact List.pairwise_map.1 hnodup

/-- The places of the outputs and proofs that are used. -/
theorem Uses.exists_matching : ∃ outputOf proofOf,
    Matching suite secret address outputs proofs (uses.map (·.locked)) outputOf proofOf := by
  let useAt (i : Fin (uses.map (·.locked)).length) : Use := uses.get (i.cast (List.length_map _))
  have hmem : ∀ i, useAt i ∈ uses := fun i => List.get_mem _ _
  have houtput := fun i => List.getElem?_eq_some_iff.1 (h.getElem?_output _ (hmem i))
  have hproof := fun i => List.getElem?_eq_some_iff.1 (h.getElem?_proof _ (hmem i))
  have hall : ∀ u ∈ uses, ∃ i, useAt i = u := fun u hu => by
    obtain ⟨i, rfl⟩ := List.get_of_mem hu
    exact ⟨i.cast (List.length_map _).symm, rfl⟩
  refine ⟨fun i => ⟨(useAt i).output.2, (houtput i).1⟩, fun i => ⟨(useAt i).proof.2, (hproof i).1⟩,
    fun i j hij => ?_, fun i j hij => ?_, fun i => ?_, fun j hfree q hleft l => ?_⟩
  case refine_1 => exact List.pairwise_iff_get.1 h.pairwise_output _ _ hij
  case refine_2 =>
    have hij : (useAt i).proof.2 = (useAt j).proof.2 := Fin.val_eq_of_eq hij
    rcases Nat.lt_trichotomy i j with hlt | heq | hlt
    · exact absurd hij (List.pairwise_iff_get.1 h.pairwise_proof (i.cast _) (j.cast _) hlt)
    · exact Fin.ext heq
    · exact absurd hij.symm (List.pairwise_iff_get.1 h.pairwise_proof (j.cast _) (i.cast _) hlt)
  case refine_3 =>
    have hlocks := h.locks _ (hmem i)
    rw [← (houtput i).2, ← (hproof i).2] at hlocks
    have hlocked : (useAt i).locked = (uses.map (·.locked))[i] := by simp [useAt]
    rwa [hlocked] at hlocks
  case refine_4 =>
    refine h.rest (outputs[j], j) (List.mem_zipIdx_iff_getElem?.2 (by simp)) (fun hused => ?_)
      (proofs[q], q) (List.mem_zipIdx_iff_getElem?.2 (by simp)) (fun u hu hbefore hsame => ?_) l
    · obtain ⟨u, hu, hplace⟩ := List.mem_map.1 hused
      obtain ⟨i, rfl⟩ := hall u hu
      exact hfree i (Fin.ext (congrArg Prod.snd hplace))
    · obtain ⟨i, rfl⟩ := hall u hu
      exact hleft i hbefore (Fin.ext (congrArg Prod.snd hsame))

end Places

/-! ## The stake of a transaction -/

/-- **Each proof is used once**: since infinite staking, whatever the cryptography, a transaction
that has a stake names the node and the contributor, discloses its key and has proofs; there is a
secret that this key shares with the contributor; and the locked contributions of the stake come
from outputs of the transaction in their order and from proofs, no two from one output or from one
proof. The stake transfers the sum of their amounts, up to the greatest 64-bit value. -/
theorem exists_matching_of_ofTransaction? {rules : NetworkRules} {fork : HardFork}
    {tx : Transaction} {height : Nat} {stake : Stake} (hfork : HardFork.infiniteStaking ≤ fork)
    (h : ofTransaction? suite rules fork tx height = some stake) :
    tx.nodeKey? = some stake.nodeKey ∧ tx.contributor? = some stake.address ∧
      tx.txSecretKey? = some stake.txKey ∧
      ∃ secret proofs outputOf proofOf,
        suite.sharedSecret? stake.address.view stake.txKey = some secret ∧
        tx.keyImageProofs? = some proofs ∧
        Matching suite secret stake.address tx.outputs proofs stake.locked outputOf proofOf ∧
        stake.transferred = clampU64 (stake.locked.map (·.amount)).sum := by
  unfold ofTransaction? at h
  obtain ⟨header, hheader, h⟩ := Option.bind_eq_some_iff.1 h
  obtain ⟨secret, hsecret, h⟩ := Option.bind_eq_some_iff.1 h
  unfold header? at hheader
  obtain ⟨nodeKey, hnodeKey, hheader⟩ := Option.bind_eq_some_iff.1 hheader
  obtain ⟨contributor, hcontributor, hheader⟩ := Option.bind_eq_some_iff.1 hheader
  obtain ⟨txKey, htxKey, hheader⟩ := Option.bind_eq_some_iff.1 hheader
  cases hheader
  rw [if_pos hfork] at h
  obtain ⟨proofs, hproofs, h⟩ := Option.bind_eq_some_iff.1 h
  cases h
  dsimp only at hsecret ⊢
  obtain ⟨uses, huses, hlocked⟩ := exists_uses suite secret contributor tx.outputs 0 proofs.zipIdx
  rw [List.zipIdx_map_fst] at hlocked
  rw [← hlocked]
  obtain ⟨outputOf, proofOf, hmatching⟩ := huses.exists_matching
  exact ⟨hnodeKey, hcontributor, htxKey, secret, proofs, outputOf, proofOf, hsecret, hproofs,
    hmatching, satSum_eq _⟩

/-- Cryptography in which the key derived for an output writes its place, and a proof verifies when
its key image is the key. -/
def numberedSuite : CryptoSuite where
  hash _ := 0
  isValidKey _ := true
  verify _ _ _ := true
  verifyKeyImage image key _ := image == key
  sharedSecret? _ _ := some 0
  outputKey? _ place _ := some (.writing place)
  outputAmount? _ _ output := some output.amount
  payoutKeys _ := (0, 0)
  toX25519? := some

/-- A stake of four outputs with three proofs: the proof of the last output comes before that of
the first, the one between is for the output that holds nothing, and the third output is addressed
to another. -/
def crossedStake : Transaction :=
  { (default : Transaction) with
    kind := .stake
    outputs := [⟨.writing 0, 30 * coin, 0⟩, ⟨.writing 1, 0, 0⟩, ⟨.writing 9, 5 * coin, 0⟩,
      ⟨.writing 3, 12 * coin, 0⟩]
    extra := [.nodeKey (.writing 7), .contributor ⟨.writing 1, .writing 1⟩, .txSecretKey 0,
      .keyImageProofs [⟨.writing 3, 0⟩, ⟨.writing 1, 0⟩, ⟨.writing 0, 0⟩]] }

theorem exists_matching_crossedStake :
    ∃ stake proofs outputOf proofOf,
      ofTransaction? numberedSuite (.of .fakechain) .v11 crossedStake 5 = some stake ∧
      stake.locked = [⟨.writing 0, .writing 0, 30 * coin⟩, ⟨.writing 3, .writing 3, 12 * coin⟩] ∧
      Matching numberedSuite 0 stake.address crossedStake.outputs proofs stake.locked outputOf
        proofOf ∧
      stake.transferred = 42 * coin := by
  have hstake : ofTransaction? numberedSuite (.of .fakechain) .v11 crossedStake 5 = some
      ⟨.writing 7, ⟨.writing 1, .writing 1⟩, 42 * coin, 0,
        [⟨.writing 0, .writing 0, 30 * coin⟩, ⟨.writing 3, .writing 3, 12 * coin⟩]⟩ := by
    decide +kernel
  obtain ⟨-, -, -, secret, proofs, outputOf, proofOf, hsecret, -, hmatching, -⟩ :=
    exists_matching_of_ofTransaction? (by decide) hstake
  cases hsecret
  exact ⟨_, proofs, outputOf, proofOf, hstake, rfl, hmatching, rfl⟩

end Stake

end StakeRegistry
