import StakeRegistry.Proofs.Transition.Accounting
import StakeRegistry.Proofs.Transition.Returns

/-!
# What the operator bears

When the contract releases less than the requirement, the operator's stake bears the difference,
and it can bear no more than it is: of a shortfall that exceeds it the rest is borne by nobody, and
is paid back although it was not released. Main statements:

* `NodeInfo.sum_exitStakes_of_funded`: what an exit of a node that holds just the requirement pays;
* `Draft.exit_forfeits`: what an exit pays, in any registry and in those that blocks lead to;
* `Draft.exit_pays_more_than_released`: an exit whose shortfall the operator cannot bear.
-/

set_option autoImplicit false

namespace StakeRegistry

namespace NodeInfo

/-- The stakes of the contributors behind the operator, whole. -/
def otherStakes (info : NodeInfo) : List ReturnedStake :=
  info.contributors.tail.map fun c => ⟨c.ethAddress, c.amount⟩

variable (rules : NetworkRules) (info : NodeInfo) (released : Nat)

/-- Behind the operator's, the stakes that an exit pays are whole. -/
theorem tail_exitStakes : (exitStakes rules info released).tail = info.otherStakes := by
  unfold exitStakes otherStakes
  cases info.contributors with
  | nil => rfl
  | cons operator others => rfl

/-- Of a node that holds just the requirement, an exit pays what is released, but no more than the
requirement, and what the operator cannot bear. -/
theorem sum_exitStakes_of_funded
    (hbooks : info.totalContributed = (info.contributors.map (·.amount)).sum)
    (hfunded : info.totalContributed = rules.stakingRequirement) :
    ((exitStakes rules info released).map (·.amount)).sum =
      min released rules.stakingRequirement + (rules.shortfall released - info.operatorAmount) := by
  have hall := sum_exitStakes_add rules info released
  rw [← hbooks, hfunded] at hall
  unfold NetworkRules.shortfall at *
  omega

end NodeInfo

/-- While the transactions of a block are applied to a registry that blocks lead to, the books of
every entry are balanced. -/
theorem Registry.Reached.balanced_draft {r : Registry} {fork : HardFork} {origins : Origins}
    (h : r.Reached fork origins) {ctx : Context} {block : Block} (hfork : fork ≤ block.fork)
    (txs : List Transaction) {key : PublicKey} {info : NodeInfo}
    (hinfo : (r.draft ctx block txs).registry.info? key = some info) : info.Balanced := by
  have hlater : r.Keeps (fun origin info => info.Accounted block.fork origin) origins :=
    fun key info hinfo => (h.accounted key info hinfo).mono hfork
  exact (hlater.draft (accounted_law ctx block) txs key info hinfo).1

namespace Draft

/-- **Forfeits**: an exit of a registered node records one payment. In it all stakes but the
operator's are whole, and with what the operator bears of the shortfall, which is no more than the
operator's stake, they make up all that is contributed. So if the node holds just the requirement,
it is paid what the contract releases, up to the requirement, and on top of that whatever the
operator's stake cannot bear: exactly what is released if the operator's stake covers the shortfall,
and more than that if not. That the node's books are balanced, which this needs, is the case at
every exit in a block that comes after any others. -/
theorem exit_forfeits {ctx : Context} {block : Block} {tx : Transaction} {d : Draft}
    {key : PublicKey} {exit : BridgeExit} {info : NodeInfo} (hexit : tx.bridgeExit? = some exit)
    (hkey : d.registry.findByBlsKey? exit.blsKey = some key)
    (hinfo : d.registry.info? key = some info) :
    ∃ returned : ReturnedStakes,
      (d.exit ctx block tx).outcome.returned = d.outcome.returned ++ [returned] ∧
      returned.nodeKey = key ∧ returned.stakes.tail = info.otherStakes ∧
      returned.total + min (ctx.rules.shortfall exit.amount) info.operatorAmount =
        (info.contributors.map (·.amount)).sum ∧
      (info.totalContributed = (info.contributors.map (·.amount)).sum →
        info.totalContributed = ctx.rules.stakingRequirement →
        returned.total = min exit.amount ctx.rules.stakingRequirement +
            (ctx.rules.shortfall exit.amount - info.operatorAmount) ∧
          (returned.total = min exit.amount ctx.rules.stakingRequirement ↔
            ctx.rules.shortfall exit.amount ≤ info.operatorAmount)) ∧
      ∀ {r : Registry} {fork : HardFork} {origins : Origins} {txs : List Transaction},
        r.Reached fork origins → fork ≤ block.fork → d = r.draft ctx block txs →
          info.totalContributed = (info.contributors.map (·.amount)).sum := by
  rcases d.returned_exit ctx block tx with
    ⟨hnone, -⟩ | ⟨key', exit', info', hexit', hkey', hinfo', hreturned⟩
  · rw [hexit, Option.bind_some, hkey] at hnone
    cases hnone
  · obtain rfl : exit' = exit := Option.some.inj (hexit'.symm.trans hexit)
    obtain rfl : key' = key := Option.some.inj (hkey'.symm.trans hkey)
    obtain rfl : info' = info := Option.some.inj (hinfo'.symm.trans hinfo)
    refine ⟨_, hreturned, rfl, info'.tail_exitStakes ctx.rules exit'.amount,
      sum_exitStakes_add ctx.rules info' exit'.amount, fun hbooks hfunded => ?_, ?_⟩
    · have htotal := info'.sum_exitStakes_of_funded ctx.rules exit'.amount hbooks hfunded
      refine ⟨htotal, ?_⟩
      unfold ReturnedStakes.total
      dsimp only
      rw [htotal]
      omega
    · rintro r fork origins txs hreached hfork rfl
      exact (hreached.balanced_draft hfork txs hinfo).contributed

end Draft

/-- The registration through the bridge of a node with two contributors, of which the operator
brings seven tenths of the requirement. -/
def Transaction.registeringTwo : Transaction :=
  { (default : Transaction) with
    kind := .bridgeRegistration
    extra := [.bridgeRegistration ⟨.writing 1, .writing 1, .writing 1, 0, 0,
      [⟨.writing 1, 70 * coin⟩, ⟨.writing 2, 30 * coin⟩]⟩] }

/-- The exit of that node, for which the contract releases some amount. -/
def Transaction.releasing (amount : Nat) : Transaction :=
  { (default : Transaction) with
    kind := .bridgeExit
    extra := [.bridgeExit ⟨.writing 1, .writing 1, amount⟩] }

namespace Draft

/-- A draft in the block that has registered the node. -/
def enteredTwo : Draft :=
  (Registry.new 1).draft (.bare (.new 1)) (.plain 2 .v21) [.registeringTwo]

/-- When nine tenths of the requirement are released, the operator bears the missing tenth. When one
tenth is released, the operator is paid nothing, and the other contributor three tenths. -/
theorem exit_forfeits_two :
    (∃ returned, (enteredTwo.exit (.bare (.new 1)) (.plain 2 .v21)
        (.releasing (90 * coin))).outcome.returned = [returned] ∧ returned.total = 90 * coin) ∧
      ∃ returned, (enteredTwo.exit (.bare (.new 1)) (.plain 2 .v21)
        (.releasing (10 * coin))).outcome.returned = [returned] ∧
        returned.stakes.tail = [⟨.writing 2, 30 * coin⟩] ∧ returned.total = 30 * coin := by
  have hentered : (enteredTwo.registry.info? (.writing 1)).any (fun info =>
      info.totalContributed = 100 * coin ∧ info.operatorAmount = 70 * coin ∧
        info.otherStakes = [⟨.writing 2, 30 * coin⟩]) = true := by decide +kernel
  obtain ⟨info, hinfo, hfacts⟩ := (Option.any_eq_true _ _).1 hentered
  obtain ⟨htotal, hoperator, hothers⟩ := of_decide_eq_true hfacts
  have hkey : enteredTwo.registry.findByBlsKey? (.writing 1) = some (.writing 1) := by
    decide +kernel
  have hnone : enteredTwo.outcome.returned = [] := by decide +kernel
  have hfunded : info.totalContributed = (NetworkRules.of .fakechain).stakingRequirement := htotal
  have hpays (amount : Nat) : ∃ returned, (enteredTwo.exit (.bare (.new 1)) (.plain 2 .v21)
      (.releasing amount)).outcome.returned = [returned] ∧
      returned.stakes.tail = [⟨.writing 2, 30 * coin⟩] ∧
      returned.total = min amount (100 * coin) + ((100 * coin - amount) - 70 * coin) := by
    obtain ⟨returned, hreturned, -, htail, -, hexact, hbooks⟩ :=
      exit_forfeits (show (Transaction.releasing amount).bridgeExit? = _ from rfl) hkey hinfo
    obtain ⟨hamount, -⟩ :=
      hexact (hbooks (.new 1 .v21 fun _ => .bridge) (Nat.le_refl _) rfl) hfunded
    rw [hnone, List.nil_append] at hreturned
    rw [hoperator] at hamount
    exact ⟨returned, hreturned, htail.trans hothers, hamount⟩
  obtain ⟨returned, hreturned, -, htotal'⟩ := hpays (90 * coin)
  obtain ⟨returned', hreturned', htail, htotal''⟩ := hpays (10 * coin)
  unfold coin at *
  exact ⟨⟨returned, hreturned, by omega⟩, returned', hreturned', htail, by omega⟩

/-- The node holds just the requirement; when one tenth of it is released, three tenths are paid. -/
theorem exit_pays_more_than_released :
    ∃ info returned, enteredTwo.registry.info? (.writing 1) = some info ∧
      info.isFullyFunded = true ∧
      info.totalContributed = (Context.bare (.new 1)).rules.stakingRequirement ∧
      (enteredTwo.exit (.bare (.new 1)) (.plain 2 .v21)
        (.releasing (10 * coin))).outcome.returned = [returned] ∧
      returned.total = 30 * coin ∧
      returned.total ≠ min (10 * coin) (Context.bare (.new 1)).rules.stakingRequirement := by
  obtain ⟨info, hinfo, hfacts⟩ := (Option.any_eq_true _ _).1 (show
    (enteredTwo.registry.info? (.writing 1)).any (fun info => info.isFullyFunded = true ∧
      info.totalContributed = (Context.bare (.new 1)).rules.stakingRequirement) = true by
        decide +kernel)
  obtain ⟨hfull, hfunded⟩ := of_decide_eq_true hfacts
  let returned : ReturnedStakes :=
    ⟨.writing 1, 2, 30, [⟨.writing 1, 0⟩, ⟨.writing 2, 30 * coin⟩]⟩
  have hreturned : (enteredTwo.exit (.bare (.new 1)) (.plain 2 .v21)
      (.releasing (10 * coin))).outcome.returned = [returned] := by decide +kernel
  exact ⟨info, returned, hinfo, hfull, hfunded, hreturned, by decide +kernel, by decide +kernel⟩

end Draft

end StakeRegistry
