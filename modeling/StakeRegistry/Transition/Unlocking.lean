import StakeRegistry.Context
import StakeRegistry.Staking.Limits
import StakeRegistry.Transition.Outcome

/-!
# Unlocking stakes

A contributor asks for a locked stake back by signing with its key; the node then expires at
the end of the lock period that is running. Once asked for, the height stays as it is. A small
contributor may not end a node early in its life.
-/

set_option autoImplicit false

namespace StakeRegistry

/-- The hash that a request to unlock a stake signs. -/
def unlockHash (suite : CryptoSuite) (nonce : Nat) : Hash :=
  suite.hash ("UNLOCK".toUTF8.toList ++ leBytes 4 nonce)

/-- Contributions below this share of the requirement are small. -/
def smallContribution (rules : NetworkRules) : Nat :=
  mulDiv rules.stakingRequirement 2499 100000

/-- Contributions below this many atomic units were small when batched rewards began. -/
def smallContributionAtBatching : Nat := 3749

/-- Blocks of a node's life in which a small contributor may not unlock. -/
def smallUnlockDelay : Nat := 21600

/-- Whether a contribution counts as small when its unlock is applied. -/
def isSmall (rules : NetworkRules) (fork : HardFork) (amount : Nat) : Bool :=
  if HardFork.bridge ≤ fork then decide (amount < smallContribution rules)
  else fork == HardFork.rewardBatching && decide (amount < smallContributionAtBatching)

namespace NodeInfo

/-- Whether a node is so young that small contributors may not unlock. -/
def isYoung (info : NodeInfo) (height : Nat) : Bool :=
  decide (height - info.registrationHeight < smallUnlockDelay)

/-- The first locked contribution with a key image. -/
def lockedBy? (info : NodeInfo) (image : KeyImage) : Option LockedContribution :=
  info.lockedContributions.find? fun l => l.keyImage == image

/-- Whether a node grants a request to unlock one of its stakes. -/
def grantsUnlock (info : NodeInfo) (ctx : Context) (fork : HardFork) (height : Nat)
    (request : KeyImageUnlock) : Bool :=
  info.requestedUnlockHeight == 0 &&
    match info.lockedBy? request.keyImage with
    | none => false
    | some l =>
        !(isSmall ctx.rules fork l.amount && info.isYoung height) &&
          ctx.suite.verify (unlockHash ctx.suite request.nonce) l.key request.signature

/-- The node that expires at the end of the lock period running at a height. -/
def unlockingAt (info : NodeInfo) (rules : NetworkRules) (height : Nat) : NodeInfo :=
  { info with requestedUnlockHeight := unlockHeight rules info.registrationHeight height }

end NodeInfo

/-- Whether a transaction asks too early for a small contribution back. Only the fork that
brought batched rewards refuses such transactions. -/
def Registry.isPrematureUnlock (r : Registry) (rules : NetworkRules) (fork : HardFork)
    (height : Nat) (tx : Transaction) : Bool :=
  fork == HardFork.rewardBatching &&
    match tx.nodeKey?, tx.keyImageUnlock? with
    | some key, some request =>
        match r.info? key with
        | none => false
        | some info =>
            (info.lockedBy? request.keyImage).any fun l =>
              decide (l.amount < smallContribution rules) && info.isYoung height
    | _, _ => false

/-- Applies a request to unlock a stake. -/
def Draft.unlock (ctx : Context) (block : Block) (tx : Transaction) (d : Draft) : Draft :=
  match tx.nodeKey?, tx.keyImageUnlock? with
  | some key, some request =>
      match d.registry.info? key with
      | none => d
      | some info =>
          if info.grantsUnlock ctx block.fork block.height request then
            d.mapRegistry (·.put key (info.unlockingAt ctx.rules block.height))
          else d
  | _, _ => d

end StakeRegistry
