/-!
# Blocks and time

How blocks measure time, and how long votes live.
-/

set_option autoImplicit false

namespace StakeRegistry

/-- Seconds between blocks. -/
def blockTime : Nat := 120

def blocksPerHour : Nat := 3600 / blockTime

def blocksPerDay : Nat := 24 * blocksPerHour

/-- Blocks for which a vote of a quorum may still be used. -/
def voteLifetime : Nat := 60

/-- Blocks by which votes and checkpoints trail the tip, so that short reorganisations leave
their quorums alone. -/
def reorgSafetyBuffer : Nat := 11

/-- Unlock times above this are times and not heights. -/
def maxBlockNumber : Nat := 500000000

end StakeRegistry
