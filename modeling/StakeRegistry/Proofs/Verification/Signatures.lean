import Mathlib.Data.List.Perm.Subperm
import StakeRegistry.Verification.Votes

/-!
# What the signatures of a quorum amount to

Signatures verify exactly if their positions ascend and each is signed by the validator at its
position (`verifySignatures_eq_ok_iff`). A Pulse block names its signers twice, by the
positions in its signatures and by the bits of its header. The check only counts the bits and
looks for the bit of every signer, but seven different signers among seven bits are all of
them, so both name the same validators (`verifyPulseSignatures_eq_ok_iff`).
-/

set_option autoImplicit false

namespace StakeRegistry

/-! ## Ascending signatures -/

/-- Signatures over `hash` whose positions ascend, each by the validator at its position. -/
structure SignedInOrder (suite : CryptoSuite) (hash : Hash) (validators : List PublicKey)
    (signatures : List QuorumSignature) : Prop where
  ascending : (signatures.map (·.voterIndex)).Pairwise (· < ·)
  signed : ∀ s ∈ signatures, ∃ voter, validators[s.voterIndex]? = some voter ∧
    suite.verify hash voter s.signature = true

/-- Signatures verify behind the position `last` exactly if they are signed in order and all
their positions are greater. -/
theorem verifySignatures_eq_ok_iff {suite : CryptoSuite} {hash : Hash}
    {validators : List PublicKey} {last : Option Nat} {signatures : List QuorumSignature} :
    verifySignatures suite hash validators last signatures = .ok () ↔
      (∀ l ∈ last, ∀ s ∈ signatures, l < s.voterIndex) ∧
        SignedInOrder suite hash validators signatures := by
  -- Over the signatures: the position of the first bounds those behind it from below.
  induction signatures generalizing last with
  | nil =>
      simp only [verifySignatures, true_iff]
      exact ⟨by simp, by simp, by simp⟩
  | cons s rest ih =>
      unfold verifySignatures
      dsimp only
      constructor
      · intro h
        split at h
        · cases h
        rename_i hlast
        split at h
        · cases h
        rename_i voter hvoter
        split at h
        · cases h
        rename_i hsigned
        obtain ⟨habove, horder⟩ := ih.1 h
        replace habove := habove _ rfl
        refine ⟨fun l hl => List.forall_mem_cons.2 ?_, ?_,
          List.forall_mem_cons.2 ⟨⟨voter, hvoter, by simpa using hsigned⟩, horder.signed⟩⟩
        · subst hl
          have hfirst : l < s.voterIndex := by simpa using hlast
          exact ⟨hfirst, fun other hother => Nat.lt_trans hfirst (habove other hother)⟩
        · rw [List.map_cons, List.pairwise_cons]
          exact ⟨List.forall_mem_map.2 habove, horder.ascending⟩
      · rintro ⟨habove, hascending, hsigned⟩
        rw [List.map_cons, List.pairwise_cons] at hascending
        obtain ⟨⟨voter, hvoter, hverified⟩, hrest⟩ := List.forall_mem_cons.1 hsigned
        have hlast : (last.any fun l => decide (s.voterIndex ≤ l)) = false := by
          cases last with
          | none => rfl
          | some l => simpa using habove l rfl s List.mem_cons_self
        rw [if_neg (by simp [hlast]), hvoter]
        dsimp only
        rw [if_neg (by simp [hverified])]
        refine ih.2 ⟨fun l hl => ?_, hascending.2, hrest⟩
        cases hl
        exact List.forall_mem_map.1 hascending.1

/-! ## Positions as bits -/

/-- A number below `2 ^ width` has its bits below `width`. -/
theorem lt_of_testBit {bits width i : Nat} (hlt : bits < Nat.pow 2 width)
    (hset : bits.testBit i = true) : i < width := by
  by_contra hge
  have hfar : bits < 2 ^ i :=
    Nat.lt_of_lt_of_le hlt (Nat.pow_le_pow_right (by decide) (Nat.not_lt.1 hge))
  rw [Nat.testBit_lt_two_pow hfar] at hset
  cases hset

theorem mem_bits_iff {bits i : Nat} :
    i ∈ (List.range 16).filter (fun j => bits.testBit j) ↔ i < 16 ∧ bits.testBit i = true := by
  rw [List.mem_filter, List.mem_range]

/-- Different positions below sixteen are counted by the bits that name them. -/
theorem bitCount_eq_length {bits : Nat} {positions : List Nat} (hdistinct : positions.Nodup)
    (hlow : ∀ i ∈ positions, i < 16)
    (hnamed : ∀ i, bits.testBit i = true ↔ i ∈ positions) : bitCount bits = positions.length := by
  have hperm : ((List.range 16).filter fun j => bits.testBit j).Perm positions :=
    (List.perm_ext_iff_of_nodup (List.nodup_range.filter _) hdistinct).2 fun i => by
      rw [mem_bits_iff, hnamed]
      exact ⟨fun h => h.2, fun h => ⟨hlow i h, h⟩⟩
  rw [bitCount, List.countP_eq_length_filter, hperm.length_eq]

/-- As many different positions as there are bits, each with its bit set, are all positions
with a bit. -/
theorem testBit_iff_mem {bits : Nat} {positions : List Nat} (hdistinct : positions.Nodup)
    (hcount : bitCount bits = positions.length) (hlow : ∀ i, bits.testBit i = true → i < 16)
    (hset : ∀ i ∈ positions, bits.testBit i = true) (i : Nat) :
    bits.testBit i = true ↔ i ∈ positions := by
  refine ⟨fun hbit => ?_, hset i⟩
  have hsubset : positions ⊆ (List.range 16).filter fun j => bits.testBit j :=
    fun j hj => mem_bits_iff.2 ⟨hlow j (hset j hj), hset j hj⟩
  rw [bitCount, List.countP_eq_length_filter] at hcount
  have hperm := (List.subperm_of_subset hdistinct hsubset).perm_of_length_le
    (Nat.le_of_eq hcount)
  exact hperm.mem_iff.2 (mem_bits_iff.2 ⟨hlow i hbit, hbit⟩)

/-! ## Pulse blocks -/

/-- A quorum has sealed a block: seven of its validators have signed the block's hash, and the
block's header has the bits of just these. -/
structure Block.SealedBy (suite : CryptoSuite) (block : Block) (q : Quorum) : Prop where
  count : block.signatures.length = 7
  low : ∀ s ∈ block.signatures, s.voterIndex < 11
  named : ∀ i, block.pulse.bitset.testBit i = true ↔ i ∈ block.signatures.map (·.voterIndex)
  order : SignedInOrder suite block.hash q.validators block.signatures

theorem SignedInOrder.nodup {suite : CryptoSuite} {hash : Hash} {validators : List PublicKey}
    {signatures : List QuorumSignature} (h : SignedInOrder suite hash validators signatures) :
    (signatures.map (·.voterIndex)).Nodup :=
  h.ascending.imp Nat.ne_of_lt

/-- The signatures of a Pulse block verify against a quorum exactly if the quorum has sealed the
block. -/
theorem verifyPulseSignatures_eq_ok_iff {suite : CryptoSuite} {q : Quorum} {block : Block} :
    verifyPulseSignatures suite q block = .ok () ↔ block.SealedBy suite q := by
  unfold verifyPulseSignatures
  dsimp only
  constructor
  · intro h
    split at h
    · cases h
    rename_i hwidth
    split at h
    · cases h
    rename_i hcount
    split at h
    · cases h
    rename_i hvoters
    rw [Nat.not_le] at hwidth
    obtain ⟨hlength, hbits⟩ := not_or.1 hcount
    rw [Decidable.not_not] at hlength hbits
    have horder := (verifySignatures_eq_ok_iff.1 h).2
    have hset : ∀ s ∈ block.signatures, block.pulse.bitset.testBit s.voterIndex = true :=
      fun s hs => by simpa using List.find?_eq_none.1 hvoters s hs
    have hlow : ∀ i, block.pulse.bitset.testBit i = true → i < 11 := fun i => lt_of_testBit hwidth
    refine ⟨hlength, fun s hs => hlow _ (hset s hs), ?_, horder⟩
    refine testBit_iff_mem horder.nodup ?_ (fun i hi => ?_) (List.forall_mem_map.2 hset)
    · rw [hbits, List.length_map, hlength]
    · exact Nat.lt_trans (hlow i hi) (by decide)
  · rintro ⟨hlength, hlow, hnamed, horder⟩
    have hlow' : ∀ i ∈ block.signatures.map (·.voterIndex), i < 11 := List.forall_mem_map.2 hlow
    have hwidth : block.pulse.bitset < Nat.pow 2 pulseValidators := by
      refine Nat.lt_pow_two_of_testBit _ fun i hi => ?_
      rw [Bool.eq_false_iff, Ne, hnamed]
      exact fun hmem => Nat.not_lt.2 hi (hlow' i hmem)
    have hbits : bitCount block.pulse.bitset = pulseSignatures := by
      rw [bitCount_eq_length horder.nodup
        (fun i hi => Nat.lt_trans (hlow' i hi) (by decide)) hnamed,
        List.length_map, hlength]
      rfl
    have hvoters : (block.signatures.find? fun s => !block.pulse.bitset.testBit s.voterIndex) =
        none := by
      rw [List.find?_eq_none]
      intro s hs
      simpa using (hnamed s.voterIndex).2 (List.mem_map_of_mem hs)
    rw [if_neg (Nat.not_le.2 hwidth), if_neg (by simp [hlength, hbits, pulseSignatures]), hvoters]
    exact verifySignatures_eq_ok_iff.2 ⟨by simp, horder⟩

end StakeRegistry
