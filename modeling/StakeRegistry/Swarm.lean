import StakeRegistry.Chain.Keys
import StakeRegistry.Data.SortedMap
import StakeRegistry.Random.Uniform

/-!
# Swarms

Active nodes are grouped into swarms that share storage duty. Rebalancing moves few nodes:
unassigned nodes join the smallest swarms, members beyond the ideal size found new swarms,
and a swarm that is too small borrows members from the largest ones or is dissolved.
-/

set_option autoImplicit false

namespace StakeRegistry

/-- The swarm of nodes without one. -/
def unassignedSwarm : Nat := maxU64

def minSwarmSize : Nat := 5

def idealSwarmSize : Nat := 7

/-- The members of every swarm. -/
abbrev SwarmMap := SortedMap Nat (List PublicKey)

namespace SwarmMap

/-- The swarm with the fewest members, of several the one with the least number. -/
def smallest? (swarms : SwarmMap) : Option (Nat × List PublicKey) :=
  List.minOn? (fun s => s.2.length) swarms.toList

/-- The swarm with the most members, of several the one with the least number. -/
def largest? (swarms : SwarmMap) : Option (Nat × List PublicKey) :=
  List.maxOn? (fun s => s.2.length) swarms.toList

/-- Adds a node to the smallest swarm. -/
def join (swarms : SwarmMap) (node : PublicKey) : SwarmMap :=
  match swarms.smallest? with
  | some (id, members) => swarms.insert id (members ++ [node])
  | none => swarms

/-- The number of members beyond the ideal size, over all swarms. -/
def surplus (swarms : SwarmMap) : Nat :=
  totalOf (swarms.values.map fun members => members.length - idealSwarmSize)

/-- The number in the middle of the widest gap between the numbers in use, counting zero and
the number of unassigned nodes as used. -/
def freshId (swarms : SwarmMap) : Nat :=
  if swarms.isEmpty then 0
  else
    let ids := 0 :: swarms.keys ++ [unassignedSwarm]
    match List.maxOn? (fun (gap : Nat × Nat) => gap.2 - gap.1) (ids.zip ids.tail) with
    | some (low, high) => low + (high - low) / 2
    | none => unassignedSwarm / 2

/-- Takes a random member out of a list. -/
def takeRandom (members : List PublicKey) (g : Twister) :
    Option (PublicKey × List PublicKey) × Twister :=
  if members.isEmpty then (none, g)
  else
    let (i, g) := drawBelow members.length g
    (members[i]?.map fun node => (node, members.eraseIdx i), g)

/-- Takes up to `count` nodes, each at random from the swarm that is then largest. -/
def takeFromLargest : Nat → SwarmMap → Twister → List PublicKey × SwarmMap × Twister
  | 0, swarms, g => ([], swarms, g)
  | count + 1, swarms, g =>
      match swarms.largest? with
      | none => ([], swarms, g)
      | some (id, members) =>
          match takeRandom members g with
          | (none, g) => ([], swarms, g)
          | (some (node, rest), g) =>
              let (nodes, swarms, g) := takeFromLargest count (swarms.insert id rest) g
              (node :: nodes, swarms, g)

/-- Founds swarms of the ideal size while the surplus suffices for one. Each takes as many
nodes off the surplus, so `rounds` at or above the surplus are enough. -/
def foundSwarms : Nat → SwarmMap → Twister → SwarmMap × Twister
  | 0, swarms, g => (swarms, g)
  | rounds + 1, swarms, g =>
      if swarms.surplus < idealSwarmSize then (swarms, g)
      else if swarms.contains swarms.freshId then (swarms, g)
      else
        let id := swarms.freshId
        let (members, swarms, g) := takeFromLargest idealSwarmSize swarms g
        foundSwarms rounds (swarms.insert id members) g

/-- The smallest of the swarms that are too small. -/
def undersized? (swarms : SwarmMap) : Option (Nat × List PublicKey) :=
  List.minOn? (fun s => s.2.length) (swarms.toList.filter fun s => s.2.length < minSwarmSize)

/-- The largest of the other swarms that can spare a member. -/
def donor? (swarms : SwarmMap) (target : Nat) : Option (Nat × List PublicKey) :=
  List.maxOn? (fun s => s.2.length)
    (swarms.toList.filter fun s => s.1 != target && minSwarmSize < s.2.length)

/-- Moves up to `count` random members from donors to a swarm that is too small. -/
def fill (target : Nat) : Nat → SwarmMap → Twister → SwarmMap × Twister
  | 0, swarms, g => (swarms, g)
  | count + 1, swarms, g =>
      let members := (swarms.get? target).getD []
      if minSwarmSize ≤ members.length then (swarms, g)
      else match swarms.donor? target with
        | none => (swarms, g)
        | some (id, donated) =>
            match takeRandom donated g with
            | (none, g) => (swarms, g)
            | (some (node, rest), g) =>
                fill target count ((swarms.insert id rest).insert target (members ++ [node])) g

/-- Removes a swarm; its members join the smallest of the others. -/
def dissolve (swarms : SwarmMap) (target : Nat) : SwarmMap :=
  ((swarms.get? target).getD []).foldl join (swarms.erase target)

/-- Fills or dissolves swarms that are too small. Each round leaves fewer of them, so `rounds`
at or above the number of swarms are enough. -/
def mend : Nat → SwarmMap → Twister → SwarmMap × Twister
  | 0, swarms, g => (swarms, g)
  | rounds + 1, swarms, g =>
      if swarms.size ≤ 1 then (swarms, g)
      else match swarms.undersized? with
        | none => (swarms, g)
        | some (target, _) =>
            let (swarms, g) := fill target minSwarmSize swarms g
            -- Still too small: no other swarm can spare a member.
            if ((swarms.get? target).getD []).length < minSwarmSize then
              mend rounds (swarms.dissolve target) g
            else mend rounds swarms g

/-- Gives every unassigned node a swarm, in random order. -/
def assign (swarms : SwarmMap) (g : Twister) : SwarmMap × Twister :=
  let waiting := (swarms.get? unassignedSwarm).getD []
  let (nodes, g) := shuffle (waiting.mergeSort fun a b => (compare a b).isLE) g
  let swarms := swarms.erase unassignedSwarm
  let swarms := if swarms.isEmpty && !nodes.isEmpty then swarms.insert 0 [] else swarms
  (nodes.foldl join swarms, g)

/-- Rebalances swarms under a seed. -/
def rebalance (swarms : SwarmMap) (seed : Nat) : SwarmMap :=
  let (swarms, g) := swarms.assign (Twister.ofSeed (UInt64.ofNat seed))
  let (swarms, g) := foundSwarms swarms.surplus swarms g
  (mend swarms.size swarms g).1

end SwarmMap

end StakeRegistry
