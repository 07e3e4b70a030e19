import StakeRegistry.Chain.Timing
import StakeRegistry.Node.Info

/-!
# Decommission credit

A node earns credit for the blocks that it is active, up to a ceiling, and uses it up while it
is decommissioned. Credit is counted in blocks of allowed absence.
-/

set_option autoImplicit false

namespace StakeRegistry

/-- The credit earned in a day of activity. -/
def creditPerDay : Int := 24

/-- The greatest credit. -/
def maxCredit : Int := 720

/-- What is left of a credit after some blocks of absence. -/
def remainingCredit (credit blocksDown : Int) : Int :=
  max (wrapI64 (min credit maxCredit - blocksDown)) 0

/-- The length of a node's active period at a height. For a decommissioned node it is the last
one. -/
def NodeInfo.blocksUp (info : NodeInfo) (height : Nat) : Int :=
  wrapI64 <|
    if info.isDecommissioned then toI64 info.lastDecommissionHeight + info.activeSince
    else toI64 height - info.activeSince

/-- The credit that a period of activity earns. -/
def earnedCredit (blocksUp : Int) : Int := (wrapI64 (blocksUp * creditPerDay)).tdiv blocksPerDay

/-- The credit of a node at a height: what it brought into its active period and what it
earned in it. -/
def NodeInfo.creditAt (info : NodeInfo) (height : Nat) : Int :=
  if info.blocksUp height < 0 then 0
  else min (wrapI64 (earnedCredit (info.blocksUp height) + info.recommissionCredit)) maxCredit

/-- The credit with which a node is recommissioned after some blocks of absence. -/
def NodeInfo.creditAfter (info : NodeInfo) (blocksDown : Nat) : Int :=
  remainingCredit (info.creditAt info.lastDecommissionHeight) (toI64 blocksDown)

end StakeRegistry
