import StakeRegistry.Proofs.Crypto.Signing
import StakeRegistry.Proofs.Transition.Step
import StakeRegistry.Uptime.Check

/-!
# Proofs that a node makes for itself

A node makes its proof in one place and others check it in another, each by the fork in force. What
the check asks is collected in `UptimeProof.Sound`. Most of it holds of every proof that a node
makes: both keys are the node's, the signatures do not enter what is signed, and the node's own
version is never below a minimum. The rest is up to what the node advertises and to the clock. Main
statements:

* `UptimeProof.check_eq_ok_iff`: what the check asks of a proof;
* `CryptoSuite.standard_serves`: with the suite in use, what any key pair signs verifies and its
  public key has a transport key;
* `UptimeProof.check_generate`: which proofs that a node makes pass the check.
-/

set_option autoImplicit false

namespace StakeRegistry

/-! ## Versions -/

/-- Whether a version is at least another. -/
def SoftwareVersion.Meets (v least : SoftwareVersion) : Prop := (compare v least).isGE = true

theorem SoftwareVersion.meets_iff (v least : SoftwareVersion) :
    v.Meets least ↔ (compare v least).isLT = false := by
  unfold Meets
  cases compare v least <;> decide

/-- The version that a node reports is never too low. -/
theorem nodeVersion_meets : ∀ least ∈ minimumVersions, nodeVersion.Meets least.node := by
  unfold SoftwareVersion.Meets
  decide

namespace UptimeProof

variable {p : UptimeProof} {ctx : ProofContext} {key : X25519Key}

/-- A proof reports no version that is too low if every one meets each minimum that is due. -/
theorem outdated?_eq_none_iff (p : UptimeProof) (fork : HardFork) :
    p.outdated? fork = none ↔ ∀ least ∈ minimumVersions, least.fork ≤ fork →
      p.version.Meets least.node ∧ p.routerVersion.Meets least.router ∧
        p.storageVersion.Meets least.storage := by
  simp only [outdated?, Option.map_eq_none_iff, List.find?_eq_none, List.mem_flatMap,
    List.mem_filter, decide_eq_true_eq, versionsAgainst, SoftwareVersion.meets_iff,
    Bool.not_eq_true]
  constructor
  · intro hcurrent least hleast hdue
    have hversion := fun v hv => hcurrent v ⟨least, ⟨hleast, hdue⟩, hv⟩
    simp only [List.forall_mem_cons] at hversion
    exact ⟨hversion.1, hversion.2.1, hversion.2.2.1⟩
  · rintro hmeets v ⟨least, ⟨hleast, hdue⟩, hv⟩
    obtain ⟨hnode, hrouter, hstorage⟩ := hmeets least hleast hdue
    simp only [List.mem_cons, List.not_mem_nil, or_false] at hv
    rcases hv with rfl | rfl | rfl <;> assumption

/-! ## The check -/

theorem checkSignatures_eq_ok_iff :
    p.checkSignatures ctx = .ok () ↔
      (ctx.fork < HardFork.bridge → ctx.suite.verify p.hash p.nodeKey p.signature = true) ∧
        ctx.suite.verify p.hash p.edKey p.edSignature = true := by
  unfold checkSignatures
  split
  · rename_i hrefused
    simp_all
  · split <;> simp_all

/-- What a proof must satisfy to pass the check with a transport key. -/
structure Sound (p : UptimeProof) (ctx : ProofContext) (key : X25519Key) : Prop where
  timely : timeBetween p.timestamp ctx.now ≤ ctx.rules.proofTolerance
  current : ctx.rules.network.enforcesProofVersions = true → p.outdated? ctx.fork = none
  address : ctx.allowLocalIps = true ∨ isPublicIp p.publicIp = true
  sameKeys : HardFork.bridge ≤ ctx.fork → p.nodeKey = p.edKey
  keyed : p.edKey ≠ 0
  transport : transportKey? ctx.suite p.edKey = some key
  signed : p.checkSignatures ctx = .ok ()
  port : p.quorumPort ≠ 0

/-- The checks are made one after another, so a proof passes if it passes each of them. -/
theorem check_eq_ok_iff : p.check ctx = .ok key ↔ p.Sound ctx key := by
  have haddress : ¬ ((!ctx.allowLocalIps) = true ∧ (!isPublicIp p.publicIp) = true) ↔
      ctx.allowLocalIps = true ∨ isPublicIp p.publicIp = true := by
    cases ctx.allowLocalIps <;> simp
  constructor
  · intro h
    unfold check at h
    obtain ⟨htime, h⟩ := ite_error_eq_ok_iff.1 h
    split at h
    case h_1 => cases h
    case h_2 hversions =>
      obtain ⟨hseen, h⟩ := ite_error_eq_ok_iff.1 h
      obtain ⟨hkeys, h⟩ := ite_error_eq_ok_iff.1 h
      obtain ⟨hkeyed, h⟩ := ite_error_eq_ok_iff.1 h
      split at h
      case h_1 => cases h
      case h_2 htransport =>
        obtain ⟨⟨⟩, hsigned, h⟩ := bind_eq_ok_iff.1 h
        obtain ⟨hport, h⟩ := ite_error_eq_ok_iff.1 h
        cases h
        exact
          { timely := Nat.not_lt.1 htime
            current := fun henforced => by rwa [if_pos henforced] at hversions
            address := haddress.1 hseen
            sameKeys := fun hbridge => Decidable.not_not.1 fun hne => hkeys ⟨hbridge, hne⟩
            keyed := hkeyed
            transport := htransport
            signed := hsigned
            port := hport }
  · intro h
    have hversions :
        (if ctx.rules.network.enforcesProofVersions then p.outdated? ctx.fork else none) = none := by
      split
      · exact h.current ‹_›
      · rfl
    have hkeys : ¬ (HardFork.bridge ≤ ctx.fork ∧ p.nodeKey ≠ p.edKey) :=
      fun hdiffer => hdiffer.2 (h.sameKeys hdiffer.1)
    unfold check
    rw [if_neg (Nat.not_lt.2 h.timely), hversions]
    dsimp only
    rw [if_neg (haddress.2 h.address), if_neg hkeys, if_neg h.keyed, h.transport]
    dsimp only
    rw [h.signed]
    exact if_neg h.port

end UptimeProof

/-! ## Key pairs -/

/-- The key pair of a seed works with a suite: what it signs verifies, and its public key has a
transport key. -/
structure CryptoSuite.Serves (suite : CryptoSuite) (seed : Bytes 32) (key : X25519Key) : Prop where
  verifies : ∀ message : Hash,
    suite.verify message (Ed25519.publicKey seed) (Ed25519.sign seed message.toList) = true
  transport : transportKey? suite (Ed25519.publicKey seed) = some key

namespace CryptoSuite

theorem standard_verify (message : Hash) (key : PublicKey) (signature : Signature) :
    standard.verify message key signature = Ed25519.verifies key message.toList signature := by
  dsimp only [standard]

theorem standard_toX25519? (key : PublicKey) :
    standard.toX25519? key = (Ed25519.toX25519 key).toOption := by
  dsimp only [standard]

/-- Every key pair works with the suite in use. -/
theorem standard_serves (seed : Bytes 32) : ∃ key, standard.Serves seed key := by
  obtain ⟨key, hkey, hderived⟩ := Ed25519.exists_toX25519_eq seed
  refine ⟨key, ?_, ?_⟩
  · intro message
    rw [standard_verify]
    exact Ed25519.verifies_sign seed message.toList
  · rw [transportKey?, standard_toX25519?, hderived, Except.toOption, Option.filter_some,
      if_pos (by simpa using hkey)]

end CryptoSuite

namespace UptimeProof

/-! ## Proofs that a node makes -/

variable {ctx : ProofContext} {key : X25519Key} {seed : Bytes 32} {fork : HardFork}
  {timestamp : Nat} {endpoints : Endpoints}

/-- Both signatures of a proof that a node makes verify as far as they are asked for: neither is part
of what is signed. -/
theorem checkSignatures_generate (h : ctx.suite.Serves seed key) :
    (generate seed ctx.fork timestamp endpoints).checkSignatures ctx = .ok () := by
  refine checkSignatures_eq_ok_iff.2 ⟨fun hlegacy => ?_, h.verifies _⟩
  -- The first signature is left out at no fork at which it is asked for.
  have hsignature : (generate seed ctx.fork timestamp endpoints).signature =
      Ed25519.sign seed (generate seed ctx.fork timestamp endpoints).hash.toList :=
    if_pos hlegacy
  rw [hsignature]
  exact h.verifies _

/-- A proof that a node makes is up to date if the versions that it advertises are. -/
theorem outdated?_generate_eq_none_iff : (generate seed fork timestamp endpoints).outdated? fork =
    none ↔ ∀ least ∈ minimumVersions, least.fork ≤ fork →
      endpoints.routerVersion.Meets least.router ∧
        endpoints.storageVersion.Meets least.storage := by
  rw [outdated?_eq_none_iff]
  constructor
  · intro h least hleast hdue
    exact (h least hleast hdue).2
  · intro h least hleast hdue
    exact ⟨nodeVersion_meets least hleast, h least hleast hdue⟩

/-- A proof that a node makes passes the check, with the transport key of the node's key, exactly if
the clock is close to the time in it and the node advertises a public address, a port and versions
that are not too low. -/
theorem check_generate (h : ctx.suite.Serves seed key) :
    (generate seed ctx.fork timestamp endpoints).check ctx = .ok key ↔
      timeBetween timestamp ctx.now ≤ ctx.rules.proofTolerance ∧
      (ctx.rules.network ≠ .devnet → ∀ least ∈ minimumVersions, least.fork ≤ ctx.fork →
        endpoints.routerVersion.Meets least.router ∧
          endpoints.storageVersion.Meets least.storage) ∧
      (ctx.allowLocalIps = true ∨ isPublicIp endpoints.publicIp = true) ∧
      endpoints.quorumPort ≠ 0 := by
  have henforced : ctx.rules.network.enforcesProofVersions = true ↔ ctx.rules.network ≠ .devnet :=
    bne_iff_ne
  rw [check_eq_ok_iff, ← henforced]
  constructor
  · intro hsound
    exact ⟨hsound.timely,
      fun hnetwork => outdated?_generate_eq_none_iff.1 (hsound.current hnetwork),
      hsound.address, hsound.port⟩
  · rintro ⟨htime, hversions, haddress, hport⟩
    exact
      { timely := htime
        current := fun hnetwork => outdated?_generate_eq_none_iff.2 (hversions hnetwork)
        address := haddress
        sameKeys := fun _ => rfl
        keyed := Ed25519.publicKey_ne_zero seed
        transport := h.transport
        signed := checkSignatures_generate h
        port := hport }

/-- A node of the main network, whose legacy signature is still checked and whose clock is as far off
as is allowed. -/
theorem check_generate_before_bridge :
    ∃ key, CryptoSuite.standard.Serves 0 key ∧
      (generate 0 .v20 1000 ⟨134744072, 22021, 22020, 22025, ⟨2, 4, 0⟩, ⟨0, 9, 11⟩⟩).check
        ⟨.standard, .of .mainnet, .v20, 1300, false⟩ = .ok key := by
  obtain ⟨key, h⟩ := CryptoSuite.standard_serves 0
  let ctx : ProofContext := ⟨.standard, .of .mainnet, .v20, 1300, false⟩
  have hserves : ctx.suite.Serves 0 key := h
  refine ⟨key, h, (check_generate hserves).2 ⟨by decide, fun _ => ?_, by decide, by decide⟩⟩
  unfold SoftwareVersion.Meets
  decide

end UptimeProof

end StakeRegistry
