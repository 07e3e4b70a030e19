import StakeRegistry.Proofs.Transition.Entries

/-!
# Stakes are accounted for

In every registry that blocks can lead to, from the first fork to the last, each entry's books
are balanced, and the entries that ordinary registrations created are ordinary. Main statements:

* `accounted_law`: entries in order stay so in a block of their fork or a later one;
* `Registry.Reached.stakes_accounted`: every reached registry's stakes are accounted for.
-/

set_option autoImplicit false

namespace StakeRegistry

/-! ## The invariant -/

/-- An entry is balanced and no younger than the fork; one from an ordinary registration is
ordinary. -/
def NodeInfo.Accounted (fork : HardFork) (origin : Origin) (info : NodeInfo) : Prop :=
  info.Balanced ∧ info.registrationFork ≤ fork ∧ (origin = .ordinary → info.Ordinary)

theorem NodeInfo.Accounted.mono {fork fork' : HardFork} {origin : Origin} {info : NodeInfo}
    (h : info.Accounted fork origin) (hfork : fork ≤ fork') : info.Accounted fork' origin :=
  ⟨h.1, Nat.le_trans h.2.1 hfork, h.2.2⟩

/-- What a block does to an entry keeps it in order. -/
theorem accounted_law (ctx : Context) (block : Block) :
    EntryLaw ctx block fun origin info => info.Accounted block.fork origin := by
  constructor
  case sameStakes =>
    rintro origin info info' ⟨hbalanced, hfork, hordinary⟩ hsame
    refine ⟨hbalanced.of_sameStakes hsame, ?_, fun horigin => ?_⟩
    · rw [hsame.registrationFork]
      exact hfork
    · exact (hordinary horigin).of_sameStakes hsame
  case registered =>
    intro index tx key info hnode
    refine ⟨balanced_of_registeredNode hnode, ?_, fun _ => ordinary_of_registeredNode hnode⟩
    rw [(layout_of_registeredNode hnode).2]
    exact Nat.le_refl _
  case bridged =>
    intro index tx key info hnode
    refine ⟨balanced_of_bridgedNode hnode, ?_, fun horigin => ?_⟩
    · rw [(layout_of_bridgedNode hnode).2]
      exact Nat.le_refl _
    · cases horigin
  case credited =>
    rintro origin info index tx stake ⟨hbalanced, hfork, hordinary⟩ hstake
    refine ⟨NodeInfo.balanced_creditStake hbalanced _ _ _ _, ?_, fun horigin => ?_⟩
    · rw [(NodeInfo.layout_creditStake info _ _ _ _).2]
      exact hfork
    · exact NodeInfo.ordinary_creditStake (hordinary horigin)
        (fun hregistered => Nat.le_trans hregistered hfork)
        (fun hinfinite => Stake.transferred_le hinfinite hstake) _ _

/-! ## Every run -/

namespace Registry

/-- The registries that blocks lead to from an empty one, in any surroundings and with any
transactions, while the fork never goes back. -/
inductive Reached : Registry → HardFork → Origins → Prop where
  | new (height : Nat) (fork : HardFork) (origins : Origins) :
      Reached (Registry.new height) fork origins
  | apply {r next : Registry} {fork : HardFork} {origins : Origins} {ctx : Context}
      {block : Block} {txs : List Transaction} {outcome : Outcome}
      (reached : Reached r fork origins) (later : fork ≤ block.fork)
      (applied : r.apply ctx block txs = .ok (next, outcome)) :
      Reached next block.fork (r.originsAfter ctx block txs origins)

/-- Every entry of a reached registry is in order. -/
theorem Reached.accounted {r : Registry} {fork : HardFork} {origins : Origins}
    (h : Reached r fork origins) :
    r.Keeps (fun origin info => info.Accounted fork origin) origins := by
  induction h with
  | new height fork origins =>
      intro key info hinfo
      cases hinfo
  | @apply r next fork origins ctx block txs outcome reached later applied ih =>
      have hlater : r.Keeps (fun origin info => info.Accounted block.fork origin) origins :=
        fun key info hinfo => (ih key info hinfo).mono later
      exact hlater.apply (accounted_law ctx block) applied

/-- In every registry that blocks lead to, whatever the surroundings and the transactions, each
entry's totals are the sums over its contributors, nobody has contributed more than is reserved
for them, and no more is contributed than reserved, nor reserved than required. In an entry
from an ordinary registration no two contributors share an address, only the first one is the
operator, and since infinite staking nobody's amount exceeds what they have locked. -/
theorem Reached.stakes_accounted {r : Registry} {fork : HardFork} {origins : Origins}
    (h : Reached r fork origins) {key : PublicKey} {info : NodeInfo}
    (hinfo : r.info? key = some info) :
    info.totalContributed = (info.contributors.map (·.amount)).sum ∧
    info.totalReserved = (info.contributors.map (·.reserved)).sum ∧
    (∀ c ∈ info.contributors, c.amount ≤ c.reserved) ∧
    info.totalContributed ≤ info.totalReserved ∧
    info.totalReserved ≤ info.stakingRequirement ∧
    (origins key = .ordinary →
      (info.contributors.map (·.address)).Nodup ∧
      (∃ first rest, info.contributors = first :: rest ∧ first.address = info.operator ∧
        ∀ c ∈ rest, c.address ≠ info.operator) ∧
      (HardFork.infiniteStaking ≤ info.registrationFork →
        ∀ c ∈ info.contributors, c.amount ≤ (c.locked.map (·.amount)).sum)) := by
  obtain ⟨hbalanced, -, hordinary⟩ := h.accounted key info hinfo
  refine ⟨hbalanced.contributed, hbalanced.reserved, hbalanced.covered,
    hbalanced.contributed_le, hbalanced.reserved_le, fun horigin => ?_⟩
  have hordinary := hordinary horigin
  exact ⟨hordinary.distinct, hordinary.operator_only_first, hordinary.locked⟩

end Registry

/-- A suite that accepts every key, proof and signature and hides nothing. -/
def CryptoSuite.trusting : CryptoSuite where
  hash _ := 0
  isValidKey _ := true
  verify _ _ _ := true
  verifyKeyImage _ _ _ := true
  sharedSecret? _ _ := some 0
  outputKey? _ _ base := some base
  outputAmount? _ _ output := some output.amount
  payoutKeys _ := (0, 0)
  toX25519? := some

/-- The registration of a node for which its operator reserves three fifths of the requirement,
and brings them, and another address two fifths. -/
def sharedRegistration : Transaction :=
  { (default : Transaction) with
    kind := .stake
    outputs := [⟨.writing 1, 60 * coin, 0⟩]
    extra := [.nodeKey (.writing 7), .contributor ⟨.writing 1, .writing 1⟩, .txSecretKey 0,
      .keyImageProofs [⟨.writing 5, 0⟩],
      .registration ⟨[.writing 1, .writing 2], [.writing 1, .writing 2], 0,
        [60 * coin, 40 * coin], 19, 0⟩] }

/-- A node whose operator has brought three fifths of the requirement, the rest being reserved. -/
theorem Registry.stakes_accounted_after_registration :
    ∃ r origins info, Registry.Reached r .v19 origins ∧ r.info? (.writing 7) = some info ∧
      origins (.writing 7) = .ordinary ∧ info.totalContributed = 60 * coin ∧
      info.totalContributed = (info.contributors.map (·.amount)).sum ∧
      info.totalReserved ≤ info.stakingRequirement ∧
      (info.contributors.map (·.address)).Nodup ∧
      ∀ c ∈ info.contributors, c.amount ≤ (c.locked.map (·.amount)).sum := by
  let ctx : Context :=
    ⟨NetworkRules.of .fakechain, .trusting, ⟨0, fun _ => none, fun _ => none, fun _ => none⟩,
      .of (.new 1) (.new 0)⟩
  let quorums : Quorums := ⟨some ⟨[], []⟩, none, none, none⟩
  have happly : (Registry.new 1).apply ctx (.plain 2 .v19) [sharedRegistration] = .ok (_, _) :=
    Registry.apply_eq_ok_iff.2
      ⟨rfl, rfl, quorums, eq_ok_of_toOption (by decide +kernel), rfl⟩
  have hreached := Registry.Reached.apply (.new 1 .v19 fun _ => .bridge) (by decide) happly
  obtain ⟨info, hinfo, hentry⟩ := (Option.any_eq_true _ _).1 (show (Registry.info?
      { Registry.settled (.new 1) ctx (.plain 2 .v19) [sharedRegistration] with
        quorums := quorums } (.writing 7)).any
      (fun info => decide (info.totalContributed = 60 * coin ∧ info.registrationFork = .v19))
      = true by decide +kernel)
  obtain ⟨htotal, hfork⟩ := of_decide_eq_true hentry
  obtain ⟨hsum, -, -, -, hlimit, hordinary⟩ := hreached.stakes_accounted hinfo
  obtain ⟨hdistinct, -, hlocked⟩ := hordinary (by decide +kernel)
  refine ⟨_, _, _, hreached, hinfo, by decide +kernel, htotal, hsum, hlimit, hdistinct, hlocked ?_⟩
  rw [hfork]
  decide

end StakeRegistry
