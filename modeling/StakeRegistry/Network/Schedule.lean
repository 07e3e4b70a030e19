import StakeRegistry.Chain.HardFork

/-!
# Hard-fork schedules

The heights at which versions begin, in the order given, and the two questions asked of
them: the version in force at a height, and the height at which a version has begun.
-/

set_option autoImplicit false

namespace StakeRegistry

/-- The height at which a version begins. -/
structure Activation where
  fork : HardFork
  height : Nat
  deriving DecidableEq

/-- Activations, meant to ascend by height. -/
abbrev Schedule := List Activation

namespace Schedule

/-- The version in force at a height: the last of the leading activations that have begun. -/
def forkAt (schedule : Schedule) (height : Nat) : HardFork :=
  match (schedule.takeWhile fun a => decide (a.height ≤ height)).getLast? with
  | some a => a.fork
  | none => .v7

/-- The height at which a version or a later one first begins. -/
def activationHeight? (schedule : Schedule) (fork : HardFork) : Option Nat :=
  (schedule.find? fun a => decide (fork ≤ a.fork)).map (·.height)

/-- The schedule of the main network. -/
def mainnet : Schedule :=
  [⟨.v7, 1⟩, ⟨.v8, 64324⟩, ⟨.v9, 101250⟩, ⟨.v10, 161849⟩, ⟨.v11, 234767⟩, ⟨.v12, 321467⟩,
   ⟨.v13, 385824⟩, ⟨.v14, 442333⟩, ⟨.v15, 496969⟩, ⟨.v16, 641111⟩, ⟨.v17, 770711⟩,
   ⟨.v18, 785000⟩, ⟨.v19, 1090000⟩]

end Schedule

end StakeRegistry
