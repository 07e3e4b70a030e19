import StakeRegistry.Proofs.Stored.Canonical
import StakeRegistry.Stored.Records

/-!
# The layouts of stored data

Every layout in which something is stored is unambiguous (`storedLayouts_unambiguous`):
snapshots of registries with all that is in them, the records of nodes, blocks and checkpoints.
-/

set_option autoImplicit false

namespace StakeRegistry

open Codec (Lawful Canonical)

/-! ## Registries -/

instance HardFork.canonical_codec : HardFork.codec.Canonical :=
  Codec.canonical_oneOf (by decide)

instance InfoVersion.canonical_codec : InfoVersion.codec.Canonical :=
  Codec.canonical_oneOf (by decide)

instance Address.canonical_codec : Address.codec.Canonical := .map _ fun _ => rfl

instance LockedContribution.canonical_codec : LockedContribution.codec.Canonical :=
  .map _ fun _ => rfl

instance Contributor.canonical_codec : Contributor.codec.Canonical := .map _ fun _ => rfl

instance PulseSorter.canonical_codec : PulseSorter.codec.Canonical := .map _ fun _ => rfl

instance NodeInfo.canonical_codec : NodeInfo.codec.Canonical := .map _ fun _ => rfl

instance BlacklistEntry.canonical_codec : BlacklistEntry.codec.Canonical := .map _ fun _ => rfl

instance Quorum.canonical_codec : Quorum.codec.Canonical := .map _ fun _ => rfl

instance StoredQuorums.canonical_codec : StoredQuorums.codec.Canonical := .map _ fun _ => rfl

instance StoredState.canonical_codec : StoredState.codec.Canonical := .map _ fun _ => rfl

instance StoredData.canonical_codec : StoredData.codec.Canonical := .map _ fun _ => rfl

/-! ## Transactions and blocks -/

instance StateChangeKind.lawful_codec : StateChangeKind.codec.Lawful :=
  Codec.lawful_oneOf (show 4 < 256 ^ 4 by decide)

instance StateChangeKind.canonical_codec : StateChangeKind.codec.Canonical :=
  Codec.canonical_oneOf (by decide)

instance StateChangeVote.lawful_codec : StateChangeVote.codec.Lawful := .map _ fun _ => rfl

instance StateChangeVote.canonical_codec : StateChangeVote.codec.Canonical := .map _ fun _ => rfl

instance StateChange.lawful_codec : StateChange.codec.Lawful := .map _ fun _ => rfl

instance StateChange.canonical_codec : StateChange.codec.Canonical := .map _ fun _ => rfl

instance RegistrationField.lawful_codec : RegistrationField.codec.Lawful := .map _ fun _ => rfl

instance RegistrationField.canonical_codec : RegistrationField.codec.Canonical :=
  .map _ fun _ => rfl

instance KeyImageProof.lawful_codec : KeyImageProof.codec.Lawful := .map _ fun _ => rfl

instance KeyImageProof.canonical_codec : KeyImageProof.codec.Canonical := .map _ fun _ => rfl

instance KeyImageUnlock.lawful_codec : KeyImageUnlock.codec.Lawful := .map _ fun _ => rfl

instance KeyImageUnlock.canonical_codec : KeyImageUnlock.codec.Canonical := .map _ fun _ => rfl

instance BridgeContributor.lawful_codec : BridgeContributor.codec.Lawful := .map _ fun _ => rfl

instance BridgeContributor.canonical_codec : BridgeContributor.codec.Canonical :=
  .map _ fun _ => rfl

instance BridgeRegistration.lawful_codec : BridgeRegistration.codec.Lawful := .map _ fun _ => rfl

instance BridgeRegistration.canonical_codec : BridgeRegistration.codec.Canonical :=
  .map _ fun _ => rfl

instance BridgeExit.lawful_codec : BridgeExit.codec.Lawful := .map _ fun _ => rfl

instance BridgeExit.canonical_codec : BridgeExit.codec.Canonical := .map _ fun _ => rfl

namespace ExtraField

/-- An extra field has one form. -/
theorem formCount_forms (field : ExtraField) : Codec.formCount forms field = 1 := by
  cases field <;> rfl

/-- Every form of extra fields has a constructor of its own. -/
theorem sound_forms : ∀ form ∈ forms, form.Sound := by
  unfold forms
  repeat refine List.forall_mem_cons.mpr ⟨⟨inferInstance, inferInstance, fun _ => rfl,
    fun {a} _ h => by cases a <;> cases h; rfl⟩, ?_⟩
  exact List.forall_mem_nil _

instance lawful_codec : ExtraField.codec.Lawful :=
  Codec.lawful_tagged sound_forms (fun field => Nat.le_of_eq (formCount_forms field))
    (show 13 < 256 ^ 4 by decide)

instance canonical_codec : ExtraField.codec.Canonical :=
  Codec.canonical_tagged sound_forms fun field => Nat.le_of_eq (formCount_forms field)

end ExtraField

instance TxKind.lawful_codec : TxKind.codec.Lawful :=
  Codec.lawful_oneOf (show 8 < 256 ^ 4 by decide)

instance TxKind.canonical_codec : TxKind.codec.Canonical := Codec.canonical_oneOf (by decide)

instance TxOutput.lawful_codec : TxOutput.codec.Lawful := .map _ fun _ => rfl

instance TxOutput.canonical_codec : TxOutput.codec.Canonical := .map _ fun _ => rfl

instance Transaction.lawful_codec : Transaction.codec.Lawful := .map _ fun _ => rfl

instance Transaction.canonical_codec : Transaction.codec.Canonical := .map _ fun _ => rfl

instance PulseHeader.lawful_codec : PulseHeader.codec.Lawful := .map _ fun _ => rfl

instance PulseHeader.canonical_codec : PulseHeader.codec.Canonical := .map _ fun _ => rfl

instance QuorumSignature.lawful_codec : QuorumSignature.codec.Lawful := .map _ fun _ => rfl

instance QuorumSignature.canonical_codec : QuorumSignature.codec.Canonical := .map _ fun _ => rfl

instance Block.lawful_codec : Block.codec.Lawful := .map _ fun _ => rfl

instance Block.canonical_codec : Block.codec.Canonical := .map _ fun _ => rfl

instance Checkpoint.lawful_codec : Checkpoint.codec.Lawful := .map _ fun _ => rfl

instance Checkpoint.canonical_codec : Checkpoint.codec.Canonical := .map _ fun _ => rfl

/-! ## The records of nodes -/

instance SoftwareVersion.lawful_codec : SoftwareVersion.codec.Lawful := .map _ fun _ => rfl

instance SoftwareVersion.canonical_codec : SoftwareVersion.codec.Canonical := .map _ fun _ => rfl

instance : SoftwareVersion.codec.Decides := inferInstanceAs (Codec.map _ _ _).Decides

instance UptimeProof.lawful_codec : UptimeProof.codec.Lawful := .map _ fun _ => rfl

instance UptimeProof.canonical_codec : UptimeProof.codec.Canonical := .map _ fun _ => rfl

instance : UptimeProof.codec.Decides := inferInstanceAs (Codec.map _ _ _).Decides

instance SeenIp.lawful_codec : SeenIp.codec.Lawful := .map _ fun _ => rfl

instance SeenIp.canonical_codec : SeenIp.codec.Canonical := .map _ fun _ => rfl

instance : SeenIp.codec.Decides := inferInstanceAs (Codec.map _ _ _).Decides

instance ProofRecord.lawful_codec : ProofRecord.codec.Lawful := .map _ fun _ => rfl

instance ProofRecord.canonical_codec : ProofRecord.codec.Canonical := .map _ fun _ => rfl

instance : ProofRecord.codec.Decides := inferInstanceAs (Codec.map _ _ _).Decides

namespace NodeRecord

/-- Records of nodes, as they are stored and read back: of what is not stored nothing may be
known. -/
def codec : Codec NodeRecord :=
  ProofRecord.codec.mapOn ofStored toProofRecord fun record =>
    ofStored record.toProofRecord = record

/-- This is how records are saved. -/
theorem encode_codec (record : NodeRecord) :
    codec.encode record = ProofRecord.codec.encode record.toProofRecord := rfl

/-- This is how saved records are read. -/
theorem read?_codec (bs : List UInt8) :
    codec.read? bs = (ProofRecord.codec.read? bs).map ofStored := by
  show ((ProofRecord.codec.decode bs).map _).map _ = ((ProofRecord.codec.decode bs).map _).map _
  rw [Option.map_map, Option.map_map]
  rfl

instance lawful_codec : codec.Lawful := .mapOn _ fun _ h => h

instance canonical_codec : codec.Canonical := .mapOn _ (fun _ => rfl) fun _ => rfl

end NodeRecord

/-! ## All layouts -/

/-- A type of stored values with its layout. -/
structure Layout where
  Value : Type
  codec : Codec Value

/-- The layouts of what is stored, and of what is stored within it. -/
def storedLayouts : List Layout :=
  [⟨_, StoredData.codec⟩, ⟨_, StoredState.codec⟩, ⟨_, StoredQuorums.codec⟩, ⟨_, Quorum.codec⟩,
   ⟨_, NodeInfo.codec⟩, ⟨_, InfoVersion.codec⟩, ⟨_, Contributor.codec⟩,
   ⟨_, LockedContribution.codec⟩, ⟨_, PulseSorter.codec⟩, ⟨_, BlacklistEntry.codec⟩,
   ⟨_, Address.codec⟩, ⟨_, HardFork.codec⟩,
   ⟨_, NodeRecord.codec⟩, ⟨_, UptimeProof.codec⟩, ⟨_, SoftwareVersion.codec⟩, ⟨_, SeenIp.codec⟩,
   ⟨_, Block.codec⟩, ⟨_, PulseHeader.codec⟩, ⟨_, QuorumSignature.codec⟩,
   ⟨_, Transaction.codec⟩, ⟨_, TxKind.codec⟩, ⟨_, TxOutput.codec⟩, ⟨_, ExtraField.codec⟩,
   ⟨_, RegistrationField.codec⟩, ⟨_, KeyImageProof.codec⟩, ⟨_, KeyImageUnlock.codec⟩,
   ⟨_, StateChange.codec⟩, ⟨_, StateChangeKind.codec⟩, ⟨_, StateChangeVote.codec⟩,
   ⟨_, BridgeRegistration.codec⟩, ⟨_, BridgeContributor.codec⟩, ⟨_, BridgeExit.codec⟩,
   ⟨_, Checkpoint.codec⟩]

/-- The stored format is unambiguous: in every layout values read back whatever comes after
them, nothing that leaves off the end of a value reads, and what reads as a value begins with
the bytes of that value. -/
theorem storedLayouts_unambiguous : ∀ layout ∈ storedLayouts, layout.codec.Unambiguous := by
  unfold storedLayouts
  repeat refine List.forall_mem_cons.mpr ⟨Codec.unambiguous _, ?_⟩
  exact List.forall_mem_nil _

/-- Stored quorums with one validator and two absences read back in front of another byte, and
do not read without their last byte. -/
theorem storedLayouts_unambiguous_quorums :
    (⟨StoredQuorums, StoredQuorums.codec⟩ : Layout) ∈ storedLayouts ∧
      ∃ quorums : StoredQuorums, quorums.slots.length = 3 ∧ StoredQuorums.codec.Fits quorums ∧
        StoredQuorums.codec.read? (StoredQuorums.codec.encode quorums ++ [0]) = some quorums ∧
        StoredQuorums.codec.read? (StoredQuorums.codec.encode quorums).dropLast = none := by
  have hmem : (⟨StoredQuorums, StoredQuorums.codec⟩ : Layout) ∈ storedLayouts :=
    List.mem_of_getElem? (i := 2) rfl
  have hall := storedLayouts_unambiguous ⟨_, StoredQuorums.codec⟩ hmem
  have hfits : StoredQuorums.codec.Fits ⟨0, 4, [some ⟨[.ofNatLE 32 1], []⟩, none, none]⟩ := by
    decide
  exact ⟨hmem, _, rfl, hfits, hall.reads _ _ hfits,
    hall.truncated _ _ hfits (List.dropLast_prefix _) (by decide)⟩

end StakeRegistry
