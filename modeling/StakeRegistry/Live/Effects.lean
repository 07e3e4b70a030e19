import StakeRegistry.Live.Storage
import StakeRegistry.Quorum.Pulse
import StakeRegistry.Uptime.Check

/-!
# Effects of blocks

What a block of the canonical chain does outside the registry: records of nodes that register,
are decommissioned or recommissioned; nodes that expire; stakes that are paid back; and, when
a Pulse block is new, how its validators took part.
-/

set_option autoImplicit false

namespace StakeRegistry

/-- The nodes whose records a block changes. -/
def Outcome.touched (outcome : Outcome) : List PublicKey :=
  outcome.registered ++ outcome.decommissioned ++ outcome.recommissioned.map (·.1)

namespace LiveRegistry

/-- The records after a block: a new node starts without one, a decommissioned node needs a
fresh proof, and a recommissioned node counts as seen. -/
def changeRecords (l : LiveRegistry) (outcome : Outcome) : LiveRegistry :=
  let l := outcome.registered.foldl (fun l node => l.changeRecord node fun _ => {}) l
  let l := outcome.decommissioned.foldl
    (fun l node => l.changeRecord node fun r => r.mapStored (·.clearTimes)) l
  outcome.recommissioned.foldl
    (fun l (node, time) => l.changeRecord node fun r => r.recommissioned time) l

/-- Notes the BLS keys of nodes that expired. A key that is noted already keeps its height. -/
def noteExpired (l : LiveRegistry) (outcome : Outcome) : LiveRegistry :=
  let last := wrapAdd l.head.height l.rules.exitBuffer
  { l with
    recentlyExpired := outcome.expired.foldl
      (fun noted (_, key) => if noted.contains key then noted else noted.insert key last)
      l.recentlyExpired }

/-- Carries out the effects of a block that has become the head. -/
def takeEffects (l : LiveRegistry) (s : Surroundings) (outcome : Outcome) : LiveRegistry :=
  let l := (l.changeRecords outcome).noteExpired outcome
  saveRecords { l with ledger := l.ledger ++ outcome.returned } s outcome.touched

/-- Forgets nodes that expired too long ago. -/
def forgetExpired (l : LiveRegistry) : LiveRegistry :=
  { l with recentlyExpired := l.recentlyExpired.filter fun _ last => decide (l.head.height ≤ last) }

/-! ## Pulse participation -/

/-- Whether a block is the chain's newest and was made just now. -/
def isFresh (s : Surroundings) (block : Block) : Bool :=
  s.chain.currentHeight == block.height + 1 &&
    decide (timeBetween s.now block.timestamp ≤ blockTime)

/-- Notes for each validator of a quorum whether it signed a block. -/
def noteSigners (l : LiveRegistry) (block : Block) (validators : List PublicKey) : LiveRegistry :=
  validators.zipIdx.foldl
    (fun l (node, i) => l.noteRegistered node fun r => r.mapParticipation
      (·.addPulse ⟨block.height, block.pulse.round, block.pulse.bitset.testBit i⟩)) l

/-- Notes how the validators of a fresh Pulse block took part in it. -/
def notePulse (l : LiveRegistry) (s : Surroundings) (block : Block) :
    LiveResult RegistryError Unit :=
  if block.hasPulseComponents && isFresh s block then
    match l.view.quorum? .pulse block.height false with
    | none => (.error (.fault .noPulseQuorum), l)
    | some quorum =>
        let size := quorum.validators.length
        if size = 0 then (.error (.fault .emptyPulseQuorum), l)
        else
          let l := l.noteSigners block (quorum.validators.take pulseValidators)
          if size < pulseValidators then
            (.error (.fault (.pulseIndexOutOfBounds size size)), l)
          else (.ok (), l)
  else (.ok (), l)

end LiveRegistry

end StakeRegistry
