/-!
# Hard forks

The ladder of protocol versions, 7 to 21, in order. Every rule of the registry that changed
over time is gated on one of them; the versions at which something begins have names.
-/

set_option autoImplicit false

namespace StakeRegistry

/-- A protocol version. -/
inductive HardFork where
  | v7 | v8 | v9 | v10 | v11 | v12 | v13 | v14 | v15 | v16 | v17 | v18 | v19 | v20 | v21
  deriving DecidableEq, Inhabited

namespace HardFork

/-- The number of a version. -/
def number : HardFork → Nat
  | v7 => 7
  | v8 => 8
  | v9 => 9
  | v10 => 10
  | v11 => 11
  | v12 => 12
  | v13 => 13
  | v14 => 14
  | v15 => 15
  | v16 => 16
  | v17 => 17
  | v18 => 18
  | v19 => 19
  | v20 => 20
  | v21 => 21

/-- Every version, ascending. -/
def all : List HardFork :=
  [v7, v8, v9, v10, v11, v12, v13, v14, v15, v16, v17, v18, v19, v20, v21]

/-- The version with a number, if there is one. -/
def ofNumber? (n : Nat) : Option HardFork := all.find? fun v => v.number == n

/-- Versions are ordered by their numbers. -/
instance : LE HardFork := ⟨fun a b => a.number ≤ b.number⟩

instance : LT HardFork := ⟨fun a b => a.number < b.number⟩

instance (a b : HardFork) : Decidable (a ≤ b) := inferInstanceAs (Decidable (a.number ≤ b.number))

instance (a b : HardFork) : Decidable (a < b) := inferInstanceAs (Decidable (a.number < b.number))

theorem le_def {a b : HardFork} : a ≤ b ↔ a.number ≤ b.number := Iff.rfl

theorem lt_def {a b : HardFork} : a < b ↔ a.number < b.number := Iff.rfl

theorem ofNumber?_number (v : HardFork) : ofNumber? v.number = some v := by
  cases v <;> rfl

/-- Service nodes exist. -/
def serviceNodes : HardFork := v9

/-- A node may register again within a grace period after its stake ran out. -/
def graceRegistration : HardFork := v10

/-- Stakes are locked by key images until their owners ask for them back. -/
def infiniteStaking : HardFork := v11

/-- Checkpointing quorums, decommission and recommission. -/
def checkpointing : HardFork := v12

/-- Checkpoints are enforced, and state changes must be recent. -/
def enforceCheckpoints : HardFork := v13

/-- Blink quorums, and stakes in transactions of their own kind. -/
def blink : HardFork := v14

/-- Blocks are produced by Pulse quorums. -/
def pulse : HardFork := v16

/-- Registrations in amounts of coin, and rewards paid in batches. -/
def rewardBatching : HardFork := v19

/-- Registrations arrive from the staking contract through the bridge. -/
def bridge : HardFork := v21

end HardFork

end StakeRegistry
