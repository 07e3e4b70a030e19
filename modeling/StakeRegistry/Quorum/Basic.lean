import StakeRegistry.Chain.Keys
import StakeRegistry.Chain.HardFork

/-!
# Quorums

Committees of nodes, drawn anew at every height: one that tests nodes and votes on their
state, one that signs checkpoints, one that approves blink transactions, and one that
produces the next block. A member is named by its position.
-/

set_option autoImplicit false

namespace StakeRegistry

/-- The duty that a quorum is drawn for. -/
inductive QuorumKind where
  | obligations
  | checkpointing
  | blink
  | pulse
  deriving DecidableEq, Inhabited

namespace QuorumKind

/-- Every kind, in the order of their numbers. -/
def all : List QuorumKind := [obligations, checkpointing, blink, pulse]

def number : QuorumKind → Nat
  | obligations => 0
  | checkpointing => 1
  | blink => 2
  | pulse => 3

def name : QuorumKind → String
  | obligations => "obligation"
  | checkpointing => "checkpointing"
  | blink => "blink"
  | pulse => "pulse"

/-- The last kind that is drawn at a fork. -/
def lastAt (fork : HardFork) : QuorumKind :=
  if fork < HardFork.checkpointing then obligations
  else if fork < HardFork.blink then checkpointing
  else if fork < HardFork.pulse then blink
  else pulse

end QuorumKind

/-- The two sides of a quorum. -/
inductive QuorumGroup where
  | validator
  | worker
  deriving DecidableEq

/-- A committee: those who vote or sign, and those who are tested or who produce. -/
structure Quorum where
  validators : List PublicKey
  workers : List PublicKey
  deriving DecidableEq, Inhabited

/-- The members of one side. -/
def Quorum.group (q : Quorum) : QuorumGroup → List PublicKey
  | .validator => q.validators
  | .worker => q.workers

/-- The quorums of one height, where there are any. -/
structure Quorums where
  obligations : Option Quorum
  checkpointing : Option Quorum
  blink : Option Quorum
  pulse : Option Quorum
  deriving DecidableEq, Inhabited

namespace Quorums

def none : Quorums := ⟨.none, .none, .none, .none⟩

def get (qs : Quorums) : QuorumKind → Option Quorum
  | .obligations => qs.obligations
  | .checkpointing => qs.checkpointing
  | .blink => qs.blink
  | .pulse => qs.pulse

def set (qs : Quorums) (kind : QuorumKind) (q : Option Quorum) : Quorums :=
  match kind with
  | .obligations => { qs with obligations := q }
  | .checkpointing => { qs with checkpointing := q }
  | .blink => { qs with blink := q }
  | .pulse => { qs with pulse := q }

@[simp] theorem get_set (qs : Quorums) (kind kind' : QuorumKind) (q : Option Quorum) :
    (qs.set kind q).get kind' = if kind' = kind then q else qs.get kind' := by
  cases kind <;> cases kind' <;> rfl

end Quorums

end StakeRegistry
