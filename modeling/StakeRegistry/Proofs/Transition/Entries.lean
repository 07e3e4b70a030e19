import StakeRegistry.Proofs.Transition.Stakes

/-!
# What blocks do to entries

A block creates entries by registrations, ordinary ones or through the bridge, credits stakes to
some, and changes others without touching their stakes. A property of entries that survives
each of these (`EntryLaw`) survives a block (`Registry.Keeps.apply`). The property may depend
on how an entry came about; that is not kept in the entry, so it is carried along (`Origins`).
-/

set_option autoImplicit false

namespace StakeRegistry

/-! ## Where entries come from -/

/-- How an entry came about: by an ordinary registration, or through the bridge. -/
inductive Origin where
  | ordinary
  | bridge
  deriving DecidableEq

/-- How the entry under each key came about last. -/
abbrev Origins := PublicKey → Origin

/-- The origins after an entry was created, if one was. -/
def Origins.record (origins : Origins) : Option (PublicKey × Origin) → Origins
  | none => origins
  | some (key, origin) => fun key' => if key' = key then origin else origins key'

namespace Draft

/-- The key under which a staking transaction creates an entry, if it does. -/
def registered? (ctx : Context) (block : Block) (index : Nat) (tx : Transaction) (d : Draft) :
    Option (PublicKey × Origin) :=
  match registeredNode ctx.suite ctx.rules (block.place index) tx with
  | .ok (some (key, info)) =>
      match d.registry.info? key with
      | none => some (key, .ordinary)
      | some old =>
          (reregistered? ctx.rules block.fork block.height old info).map fun _ => (key, .ordinary)
  | _ => none

/-- The key under which a bridge registration creates an entry, if it does. -/
def bridged? (ctx : Context) (block : Block) (index : Nat) (tx : Transaction) :
    Option (PublicKey × Origin) :=
  match bridgedNode ctx.suite ctx.rules (block.place index) tx with
  | .ok (key, _) => some (key, .bridge)
  | .error _ => none

/-- The key under which a transaction creates an entry, if it does. -/
def created? (ctx : Context) (block : Block) (index : Nat) (tx : Transaction) (d : Draft) :
    Option (PublicKey × Origin) :=
  if tx.kind = TxKind.ofStakes block.fork then d.registered? ctx block index tx
  else if tx.kind = .bridgeRegistration then bridged? ctx block index tx
  else none

/-- The origins after some transactions of a block. -/
def originsAfter (ctx : Context) (block : Block) : List (Transaction × Nat) → Draft → Origins →
    Origins
  | [], _, origins => origins
  | (tx, index) :: rest, d, origins =>
      originsAfter ctx block rest (d.applyTransaction ctx block tx index)
        (origins.record (d.created? ctx block index tx))

end Draft

namespace Registry

/-- The origins after a block. -/
def originsAfter (r : Registry) (ctx : Context) (block : Block) (txs : List Transaction)
    (origins : Origins) : Origins :=
  Draft.originsAfter ctx block txs.zipIdx (r.opened ctx block) origins

/-- Every entry has a property that may depend on how it came about. -/
def Keeps (r : Registry) (P : Origin → NodeInfo → Prop) (origins : Origins) : Prop :=
  ∀ key info, r.info? key = some info → P (origins key) info

end Registry

/-! ## Properties that survive -/

/-- A property of entries that survives all that a block does to them. -/
structure EntryLaw (ctx : Context) (block : Block) (P : Origin → NodeInfo → Prop) : Prop where
  sameStakes : ∀ (origin : Origin) (info info' : NodeInfo), P origin info →
    info.SameStakes info' → P origin info'
  registered : ∀ (index : Nat) (tx : Transaction) (key : PublicKey) (info : NodeInfo),
    registeredNode ctx.suite ctx.rules (block.place index) tx = .ok (some (key, info)) →
      P .ordinary info
  bridged : ∀ (index : Nat) (tx : Transaction) (key : PublicKey) (info : NodeInfo),
    bridgedNode ctx.suite ctx.rules (block.place index) tx = .ok (key, info) → P .bridge info
  credited : ∀ (origin : Origin) (info : NodeInfo) (index : Nat) (tx : Transaction)
    (stake : Stake), P origin info →
      Stake.ofTransaction? ctx.suite ctx.rules block.fork tx block.height = some stake →
        P origin (info.creditStake block.fork block.height index stake)

section Entries

variable {ctx : Context} {block : Block} {P : Origin → NodeInfo → Prop} {origins : Origins}

namespace Registry.Keeps

variable {r r' : Registry}

theorem of_keepsStakes (law : EntryLaw ctx block P) (h : r.Keeps P origins)
    (hkeeps : r.KeepsStakes r') : r'.Keeps P origins := by
  intro key info' hinfo'
  obtain ⟨info, hinfo, hsame⟩ := hkeeps key info' hinfo'
  exact law.sameStakes _ info info' (h key info hinfo) hsame

/-- Replacing an entry by one that has the property. -/
theorem put (h : r.Keeps P origins) {key : PublicKey} {info : NodeInfo}
    (hnew : P (origins key) info) : (r.put key info).Keeps P origins := by
  intro key' info' hinfo'
  rw [info?_put] at hinfo'
  split at hinfo'
  · rename_i hkey
    cases hinfo'
    subst hkey
    exact hnew
  · exact h key' info' hinfo'

/-- Creating an entry that has the property. -/
theorem create (h : r.Keeps P origins) {key : PublicKey} {info : NodeInfo} {origin : Origin}
    (hnew : P origin info) : (r.put key info).Keeps P (origins.record (some (key, origin))) := by
  intro key' info' hinfo'
  rw [info?_put] at hinfo'
  unfold Origins.record
  dsimp only
  split at hinfo'
  · rename_i hkey
    cases hinfo'
    rw [if_pos hkey]
    exact hnew
  · rename_i hkey
    rw [if_neg hkey]
    exact h key' info' hinfo'

end Registry.Keeps

/-! ## One transaction -/

namespace Draft

variable {d : Draft}

theorem keeps_register (law : EntryLaw ctx block P) (h : d.registry.Keeps P origins)
    (index : Nat) (tx : Transaction) :
    (d.register ctx block index tx).registry.Keeps P
      (origins.record (d.registered? ctx block index tx)) := by
  unfold register registered?
  split
  case h_1 hnode =>
    rw [hnode]
    exact h
  case h_2 hnode =>
    rw [hnode]
    exact h
  case h_3 key info hnode =>
    rw [hnode]
    dsimp only
    have hnew := law.registered index tx key info hnode
    cases d.registry.info? key with
    | none => exact h.create hnew
    | some old =>
        dsimp only
        cases hrenewed : reregistered? ctx.rules block.fork block.height old info with
        | none => exact h
        | some renewed =>
            -- A renewed entry takes over its place in the reward queue, and no stakes.
            have hsame : info.SameStakes renewed := by
              unfold reregistered? at hrenewed
              split at hrenewed
              · cases hrenewed
              · cases hrenewed
                exact ⟨rfl, rfl, rfl, rfl, rfl, rfl, rfl⟩
            exact h.create (law.sameStakes .ordinary info renewed hnew hsame)

theorem keeps_contribute (law : EntryLaw ctx block P) (h : d.registry.Keeps P origins)
    (index : Nat) (tx : Transaction) :
    (d.contribute ctx block index tx).registry.Keeps P origins := by
  unfold contribute
  split
  · exact h
  · rename_i stake hstake
    split
    · exact h
    · rename_i info hinfo
      split
      · exact h.put (law.credited _ info index tx stake (h _ _ hinfo) hstake)
      · exact h

theorem keeps_registerBridged (law : EntryLaw ctx block P) (h : d.registry.Keeps P origins)
    (index : Nat) (tx : Transaction) :
    (d.registerBridged ctx block index tx).registry.Keeps P
      (origins.record (bridged? ctx block index tx)) := by
  unfold registerBridged bridged?
  cases hnode : bridgedNode ctx.suite ctx.rules (block.place index) tx with
  | error e => exact h
  | ok node =>
      obtain ⟨key, info⟩ := node
      exact h.create (law.bridged index tx key info hnode)

/-- The property survives a transaction. -/
theorem keeps_applyTransaction (law : EntryLaw ctx block P) (h : d.registry.Keeps P origins)
    (index : Nat) (tx : Transaction) :
    (d.applyTransaction ctx block tx index).registry.Keeps P
      (origins.record (d.created? ctx block index tx)) := by
  unfold applyTransaction created?
  split
  · exact keeps_contribute law (keeps_register law h index tx) index tx
  · cases tx.kind with
    | stateChange =>
        exact h.of_keepsStakes law (keepsShares_applyStateChange ctx block tx d).keepsStakes
    | keyImageUnlock => exact h.of_keepsStakes law (keepsShares_unlock ctx block tx d).keepsStakes
    | bridgeRegistration => exact keeps_registerBridged law h index tx
    | bridgeLeave => exact h.of_keepsStakes law (keepsShares_leave ctx block tx d).keepsStakes
    | bridgeExit => exact h.of_keepsStakes law (keepsShares_exit ctx block tx d).keepsStakes
    | bridgeDeregister => exact h.of_keepsStakes law (keepsShares_expel tx d).keepsStakes
    | standard => exact h
    | stake => exact h

/-- What holds of a draft and the origins of its entries, and is kept by every transaction of a
block, holds after all of them. -/
theorem originsAfter_induction {P : Draft → Origins → Prop}
    (hstep : ∀ (d : Draft) (origins : Origins) (tx : Transaction) (index : Nat), P d origins →
      P (d.applyTransaction ctx block tx index) (origins.record (d.created? ctx block index tx)))
    (h : P d origins) (txs : List Transaction) :
    P (d.applyTransactions ctx block txs) (originsAfter ctx block txs.zipIdx d origins) := by
  unfold applyTransactions
  generalize txs.zipIdx = indexed
  -- Over the transactions in order, with the origins as they stand before each.
  induction indexed generalizing d origins with
  | nil => exact h
  | cons p indexed ih =>
      obtain ⟨tx, index⟩ := p
      exact ih (hstep d origins tx index h)

/-- The property survives the transactions of a block. -/
theorem keeps_applyTransactions (law : EntryLaw ctx block P) (h : d.registry.Keeps P origins)
    (txs : List Transaction) :
    (d.applyTransactions ctx block txs).registry.Keeps P
      (originsAfter ctx block txs.zipIdx d origins) :=
  originsAfter_induction (P := fun d origins => d.registry.Keeps P origins)
    (fun _ _ tx index h => keeps_applyTransaction law h index tx) h txs

end Draft

/-! ## One block -/

namespace Registry

theorem keepsStakes_opened (r : Registry) (ctx : Context) (block : Block) :
    r.KeepsStakes (r.opened ctx block).registry := by
  have hstart : r.KeepsStakes (r.atBlock block) := .of_nodes rfl
  have hformed : r.KeepsStakes ((r.atBlock block).formPulseQuorum ctx block
      (block.minerTx.winner?.getD 0)) :=
    hstart.trans (.formPulseQuorum (fun _ _ => ⟨rfl, rfl, rfl, rfl, rfl, rfl, rfl⟩) _ ctx block _)
  exact hformed.trans (keepsShares_opened r ctx block).keepsStakes

/-- The property survives the opening of a block, which changes no stakes, and its
transactions. -/
theorem Keeps.draft {r : Registry} (law : EntryLaw ctx block P) (h : r.Keeps P origins)
    (txs : List Transaction) :
    (r.draft ctx block txs).registry.Keeps P (r.originsAfter ctx block txs origins) :=
  Draft.keeps_applyTransactions law (h.of_keepsStakes law (keepsStakes_opened r ctx block)) txs

/-- The property survives a block. -/
theorem Keeps.apply {r next : Registry} {txs : List Transaction} {outcome : Outcome}
    (law : EntryLaw ctx block P) (h : r.Keeps P origins)
    (happly : r.apply ctx block txs = .ok (next, outcome)) :
    next.Keeps P (r.originsAfter ctx block txs origins) := by
  obtain ⟨-, -, quorums, -, rfl⟩ := apply_eq_ok_iff.1 happly
  -- Settling changes no stakes either, and the quorums are no part of the entries.
  have hsettled : (r.settled ctx block txs).Keeps P (r.originsAfter ctx block txs origins) :=
    (h.draft law txs).of_keepsStakes law (keepsShares_settled r ctx block txs).keepsStakes
  exact hsettled.of_keepsStakes law (.of_nodes rfl)

end Registry

end Entries

end StakeRegistry
