import StakeRegistry.Proofs.Staking.Shortfall

/-!
# What the signature of a registration covers

The bytes that a node's key signs are the fee, the reserved values with their addresses, and the
fork or time, each in a fixed width, so that they tell every one of these. The contributors of a
registration through the bridge are not among the reserved values, though, and neither they nor the
BLS key stand anywhere else in the message: whoever has one signature of a node can register the
node with other contributors and another BLS key. Main statements:

* `Registration.signedMessage_eq_iff`: what the message tells, for every form of registration;
* `ordinary_signature_covers_terms`: of an ordinary registration it tells all terms;
* `exists_bridgedNode`: which registrations through the bridge are accepted;
* `bridge_signature_covers_fee`: what the signature of a registration through the bridge is worth.
-/

set_option autoImplicit false

namespace StakeRegistry

/-! ## Reading the message back -/

/-- A word is told by its eight bytes. -/
theorem leBytes_word_inj {a b : Nat} (ha : a ≤ maxU64) (hb : b ≤ maxU64)
    (h : leBytes 8 a = leBytes 8 b) : a = b := by
  have hsize : maxU64 < Nat.pow 256 8 := by decide
  rw [← leNat_leBytes 8 a (Nat.lt_of_le_of_lt ha hsize), h,
    leNat_leBytes 8 b (Nat.lt_of_le_of_lt hb hsize)]

theorem Address.length_bytes (a : Address) : a.bytes.length = 64 := by simp [bytes]

theorem Address.bytes_inj {a b : Address} (h : a.bytes = b.bytes) : a = b := by
  unfold bytes at h
  obtain ⟨hspend, hview⟩ := List.append_inj h (by simp)
  cases a
  cases b
  congr 1
  · exact Bytes.ext hspend
  · exact Bytes.ext hview

namespace Registration

/-- A reserved value as it is signed. -/
def reservedBytes (entry : Address × Nat) : List UInt8 := entry.1.bytes ++ leBytes 8 entry.2

theorem length_reservedBytes (entry : Address × Nat) : (reservedBytes entry).length = 72 := by
  simp [reservedBytes, Address.length_bytes]

/-- The numbers of a registration are 64-bit words. -/
structure InWords (reg : Registration) : Prop where
  fee : reg.fee ≤ maxU64
  reserved : ∀ entry ∈ reg.reserved, entry.2 ≤ maxU64
  forkOrExpiry : reg.forkOrExpiry ≤ maxU64

/-- The reserved values are told by their bytes, as many as there are. -/
theorem flatMap_reservedBytes_inj {l l' : List (Address × Nat)}
    (hwords : ∀ entry ∈ l, entry.2 ≤ maxU64) (hwords' : ∀ entry ∈ l', entry.2 ≤ maxU64)
    (h : l.flatMap reservedBytes = l'.flatMap reservedBytes) : l = l' := by
  induction l generalizing l' with
  | nil =>
      cases l' with
      | nil => rfl
      | cons entry' rest' =>
          have hlength := congrArg List.length h
          simp [length_reservedBytes] at hlength
          omega
  | cons entry rest ih =>
      cases l' with
      | nil =>
          have hlength := congrArg List.length h
          simp [length_reservedBytes] at hlength
      | cons entry' rest' =>
          rw [List.flatMap_cons, List.flatMap_cons] at h
          obtain ⟨hfirst, hrest⟩ := List.append_inj h (by simp only [length_reservedBytes])
          obtain ⟨haddress, hamount⟩ := List.append_inj hfirst (by simp only [Address.length_bytes])
          have hsame : entry = entry' :=
            Prod.ext (Address.bytes_inj haddress)
              (leBytes_word_inj (hwords entry List.mem_cons_self)
                (hwords' entry' List.mem_cons_self) hamount)
          rw [hsame, ih (fun e he => hwords e (List.mem_cons_of_mem entry he))
            (fun e he => hwords' e (List.mem_cons_of_mem entry' he)) hrest]

variable {reg reg' : Registration}

theorem signedMessage_eq (reg : Registration) :
    reg.signedMessage =
      leBytes 8 reg.fee ++ reg.reserved.flatMap reservedBytes ++ leBytes 8 reg.forkOrExpiry := rfl

/-- The signed bytes tell the fee, the reserved values and the fork or time, and nothing more. -/
theorem signedMessage_eq_iff (h : reg.InWords) (h' : reg'.InWords) :
    reg.signedMessage = reg'.signedMessage ↔
      reg.fee = reg'.fee ∧ reg.reserved = reg'.reserved ∧ reg.forkOrExpiry = reg'.forkOrExpiry := by
  rw [signedMessage_eq, signedMessage_eq]
  constructor
  · intro hsame
    obtain ⟨hfront, hfork⟩ := List.append_inj' hsame (by simp only [length_leBytes])
    obtain ⟨hfee, hreserved⟩ := List.append_inj hfront (by simp only [length_leBytes])
    exact ⟨leBytes_word_inj h.fee h'.fee hfee,
      flatMap_reservedBytes_inj h.reserved h'.reserved hreserved,
      leBytes_word_inj h.forkOrExpiry h'.forkOrExpiry hfork⟩
  · rintro ⟨hfee, hreserved, hfork⟩
    rw [hfee, hreserved, hfork]

/-- Registrations of one node with one signature, for which the same bytes are signed, are both
signed or both not. -/
theorem validateSignature_congr (suite : CryptoSuite) (hkey : reg.nodeKey = reg'.nodeKey)
    (hsignature : reg.signature = reg'.signature)
    (hmessage : reg.signedMessage = reg'.signedMessage) :
    reg.validateSignature suite = reg'.validateSignature suite := by
  unfold validateSignature hash
  rw [hkey, hsignature, hmessage]

/-! ## Ordinary registrations -/

/-- Whether an ordinary registration is in portions is read off its fork or time. -/
theorem inPortions_of_ofTransaction? {tx : Transaction} (h : ofTransaction? tx = some reg) :
    reg.inPortions = decide (maxForkNumber < reg.forkOrExpiry) := by
  unfold ofTransaction? at h
  obtain ⟨terms, -, h⟩ := Option.bind_eq_some_iff.1 h
  split at h
  · cases h
  · obtain ⟨nodeKey, -, h⟩ := Option.bind_eq_some_iff.1 h
    cases h
    rfl

end Registration

/-- **Ordinary registrations**: the bytes that are signed for the registrations of two transactions
are the same exactly if the fees are, the reserved values with their addresses, one by one and in
order, the forks or times, and with these whether the values are portions. -/
theorem ordinary_signature_covers_terms {tx tx' : Transaction} {reg reg' : Registration}
    (hreg : Registration.ofTransaction? tx = some reg)
    (hreg' : Registration.ofTransaction? tx' = some reg') (hwords : reg.InWords)
    (hwords' : reg'.InWords) :
    reg.signedMessage = reg'.signedMessage ↔
      reg.fee = reg'.fee ∧ reg.reserved = reg'.reserved ∧ reg.forkOrExpiry = reg'.forkOrExpiry ∧
        reg.inPortions = reg'.inPortions := by
  have hportions : reg.forkOrExpiry = reg'.forkOrExpiry → reg.inPortions = reg'.inPortions := by
    intro hfork
    rw [Registration.inPortions_of_ofTransaction? hreg,
      Registration.inPortions_of_ofTransaction? hreg', hfork]
  rw [Registration.signedMessage_eq_iff hwords hwords']
  constructor
  · rintro ⟨hfee, hreserved, hfork⟩
    exact ⟨hfee, hreserved, hfork, hportions hfork⟩
  · rintro ⟨hfee, hreserved, hfork, -⟩
    exact ⟨hfee, hreserved, hfork⟩

/-- The registration of a node by contributors with numbers for keys and their portions. -/
def Transaction.reserving (portions : List (Nat × Nat)) : Transaction :=
  let keys := portions.map fun p => .writing p.1
  { (default : Transaction) with
    extra := [.nodeKey (.writing 7), .registration ⟨keys, keys, 0, portions.map (·.2), 256, 0⟩] }

/-- Two contributors in either order sign different bytes. -/
theorem ordinary_signature_covers_terms_swapped : ∃ reg reg',
    Registration.ofTransaction? (.reserving [(1, 3), (2, 5)]) = some reg ∧
      Registration.ofTransaction? (.reserving [(2, 5), (1, 3)]) = some reg' ∧
      reg.InWords ∧ reg'.InWords ∧ reg.signedMessage ≠ reg'.signedMessage := by
  obtain ⟨reg, hreg, hwords, hamounts⟩ : ∃ reg,
      Registration.ofTransaction? (.reserving [(1, 3), (2, 5)]) = some reg ∧ reg.InWords ∧
        reg.reserved.map (·.2) = [3, 5] := ⟨_, rfl, ⟨by decide, by decide, by decide⟩, rfl⟩
  obtain ⟨reg', hreg', hwords', hamounts'⟩ : ∃ reg',
      Registration.ofTransaction? (.reserving [(2, 5), (1, 3)]) = some reg' ∧ reg'.InWords ∧
        reg'.reserved.map (·.2) = [5, 3] := ⟨_, rfl, ⟨by decide, by decide, by decide⟩, rfl⟩
  refine ⟨reg, reg', hreg, hreg', hwords, hwords', fun hsame => ?_⟩
  obtain ⟨-, hreserved, -⟩ := (ordinary_signature_covers_terms hreg hreg' hwords hwords').1 hsame
  rw [hreserved, hamounts'] at hamounts
  exact absurd hamounts (by decide)

namespace Registration

variable {reg reg' : Registration}

/-! ## Registrations through the bridge -/

theorem forkOrExpiry_of_ofBridge? {fork : HardFork} {tx : Transaction}
    (h : ofBridge? fork tx = some reg) : reg.forkOrExpiry = fork.number := by
  unfold ofBridge? at h
  obtain ⟨terms, -, h⟩ := Option.bind_eq_some_iff.1 h
  cases h
  rfl

theorem inWords_of_ofBridge? {fork : HardFork} {tx : Transaction}
    (h : ofBridge? fork tx = some reg) (hfee : reg.fee ≤ maxU64) : reg.InWords := by
  refine ⟨hfee, ?_, ?_⟩
  · rw [(ofBridge?_terms h).1]
    nofun
  · rw [forkOrExpiry_of_ofBridge? h]
    cases fork <;> decide

/-- Of registrations through the bridge at one fork, the message tells the fee. -/
theorem signedMessage_eq_iff_of_bridge {fork : HardFork} {tx tx' : Transaction}
    (hreg : ofBridge? fork tx = some reg) (hreg' : ofBridge? fork tx' = some reg')
    (hfee : reg.fee ≤ maxU64) (hfee' : reg'.fee ≤ maxU64) :
    reg.signedMessage = reg'.signedMessage ↔ reg.fee = reg'.fee := by
  rw [signedMessage_eq_iff (inWords_of_ofBridge? hreg hfee) (inWords_of_ofBridge? hreg' hfee'),
    (ofBridge?_terms hreg).1, (ofBridge?_terms hreg').1, forkOrExpiry_of_ofBridge? hreg,
    forkOrExpiry_of_ofBridge? hreg']
  simp

end Registration

section Bridged

variable {suite : CryptoSuite} {rules : NetworkRules} {place : BlockPlace} {tx : Transaction}
  {key : PublicKey} {info : NodeInfo} {reg : Registration}

/-- A node that is registered through the bridge is that of the registration, and has signed it. -/
theorem signature_of_bridgedNode (h : bridgedNode suite rules place tx = .ok (key, info))
    (hreg : Registration.ofBridge? place.fork tx = some reg) :
    key = reg.nodeKey ∧ reg.validateSignature suite = .ok () := by
  obtain ⟨reg', _, _, _, hreg', -, hsigned, -, -, hkey, -⟩ := bridgedNode_eq_ok_iff.1 h
  obtain rfl : reg' = reg := Option.some.inj (hreg'.symm.trans hreg)
  exact ⟨hkey, hsigned⟩

/-- A registration through the bridge that passes the checks, with different contributors, enters
the node with these contributors and its BLS key. -/
theorem exists_bridgedNode (hreg : Registration.ofBridge? place.fork tx = some reg)
    (hvalid : reg.validate place.fork rules rules.stakingRequirement place.timestamp = .ok ())
    (hsigned : reg.validateSignature suite = .ok ())
    (hdistinct : (reg.bridgeContributions.map (·.1)).Nodup) :
    ∃ info, bridgedNode suite rules place tx = .ok (reg.nodeKey, info) ∧
      info.blsKey = reg.blsKey ∧
      info.contributors.map (fun c => (c.ethAddress, c.amount)) = reg.bridgeContributions := by
  obtain ⟨hnone, hamounts⟩ := Registration.ofBridge?_terms hreg
  obtain ⟨hsome, -⟩ := Registration.stakesFit_of_bridge hnone hamounts hvalid
  obtain ⟨⟨operator, amount⟩, others, hothers⟩ := List.exists_cons_of_ne_nil hsome
  refine ⟨bridgeEntry place rules.stakingRequirement operator reg, ?_, rfl, ?_⟩
  · exact bridgedNode_eq_ok_iff.2
      ⟨reg, operator, amount, others, hreg, hvalid, hsigned, hothers, hdistinct, rfl, rfl⟩
  · simp [bridgeEntry, List.map_map, Function.comp_def]

end Bridged

/-- **Signatures**: of two registrations through the bridge at one fork the signed bytes differ
exactly if the fees do, whatever else differs. So when they are of one node and have one fee, a
signature that is good for one is good for the other; and once it has registered the node, it
registers the node again with any other contributors that the checks allow and any other BLS
key. -/
theorem bridge_signature_covers_fee {place : BlockPlace} {tx tx' : Transaction}
    {reg reg' : Registration} (hreg : Registration.ofBridge? place.fork tx = some reg)
    (hreg' : Registration.ofBridge? place.fork tx' = some reg') (hword : reg.fee ≤ maxU64)
    (hword' : reg'.fee ≤ maxU64) :
    (reg.signedMessage ≠ reg'.signedMessage ↔ reg.fee ≠ reg'.fee) ∧
      ∀ (suite : CryptoSuite) (rules : NetworkRules), reg.nodeKey = reg'.nodeKey →
        reg.signature = reg'.signature → reg.fee = reg'.fee →
        reg.validateSignature suite = reg'.validateSignature suite ∧
        ∀ {key : PublicKey} {info : NodeInfo},
          bridgedNode suite rules place tx = .ok (key, info) →
          reg'.validate place.fork rules rules.stakingRequirement place.timestamp = .ok () →
          (reg'.bridgeContributions.map (·.1)).Nodup →
          ∃ info', bridgedNode suite rules place tx' = .ok (key, info') ∧
            info'.blsKey = reg'.blsKey ∧
            info'.contributors.map (fun c => (c.ethAddress, c.amount)) =
              reg'.bridgeContributions := by
  have hmessage := Registration.signedMessage_eq_iff_of_bridge hreg hreg' hword hword'
  refine ⟨not_congr hmessage, fun suite rules hkey hsignature hfee => ?_⟩
  have hsame := Registration.validateSignature_congr suite hkey hsignature (hmessage.2 hfee)
  refine ⟨hsame, fun {key info} h hvalid hdistinct => ?_⟩
  obtain ⟨rfl, hsigned⟩ := signature_of_bridgedNode h hreg
  rw [hkey]
  exact exists_bridgedNode hreg' hvalid (hsame ▸ hsigned) hdistinct

/-- A suite in which signatures verify one message only: that of no fee at the bridge's fork. -/
def CryptoSuite.signingNoFee : CryptoSuite :=
  { CryptoSuite.trusting with
    hash := fun message => .writing (leNat message)
    verify := fun hash _ _ => hash == .writing (leNat (leBytes 8 0 ++ leBytes 8 21)) }

/-- The registration of a node through the bridge, with some BLS key and contributors. -/
def Transaction.bridging (blsKey : Nat) (contributors : List BridgeContributor) : Transaction :=
  { (default : Transaction) with
    kind := .bridgeRegistration
    extra := [.bridgeRegistration ⟨.writing blsKey, 0, .writing 1, 0, 0, contributors⟩] }

/-- The signature by which a node is registered for two contributors also registers it for a third
one, who alone brings the requirement, and with another BLS key. -/
theorem bridge_signature_covers_fee_twice :
    ∃ info info', bridgedNode .signingNoFee (.of .fakechain) ⟨.v21, 0, 2, 0⟩
        (.bridging 7 [⟨.writing 1, 70 * coin⟩, ⟨.writing 2, 30 * coin⟩]) =
          .ok (.writing 1, info) ∧
      bridgedNode .signingNoFee (.of .fakechain) ⟨.v21, 0, 2, 0⟩
        (.bridging 8 [⟨.writing 3, 100 * coin⟩]) = .ok (.writing 1, info') ∧
      info'.blsKey = .writing 8 ∧
      info'.contributors.map (fun c => (c.ethAddress, c.amount)) = [(.writing 3, 100 * coin)] := by
  have hfirst : (bridgedNode .signingNoFee (.of .fakechain) ⟨.v21, 0, 2, 0⟩
      (.bridging 7 [⟨.writing 1, 70 * coin⟩, ⟨.writing 2, 30 * coin⟩])).toOption.any
        (fun node => node.1 = .writing 1) = true := by decide +kernel
  obtain ⟨⟨key, info⟩, hregisters, hkey⟩ := (Option.any_eq_true _ _).1 hfirst
  obtain rfl : key = .writing 1 := of_decide_eq_true hkey
  have hregistered := eq_ok_of_toOption hregisters
  obtain ⟨-, hsigned⟩ := bridge_signature_covers_fee
    (show Registration.ofBridge? (BlockPlace.mk .v21 0 2 0).fork (.bridging 7 _) = _ from rfl)
    (show Registration.ofBridge? (BlockPlace.mk .v21 0 2 0).fork
      (.bridging 8 [⟨.writing 3, 100 * coin⟩]) = _ from rfl) (Nat.zero_le _) (Nat.zero_le _)
  obtain ⟨-, hagain⟩ := hsigned .signingNoFee (.of .fakechain) rfl rfl rfl
  obtain ⟨info', hregistered', hbls, hcontributors⟩ :=
    hagain hregistered (eq_ok_of_toOption (by decide +kernel)) (by decide +kernel)
  exact ⟨info, info', hregistered, hregistered', hbls, hcontributors⟩

end StakeRegistry
