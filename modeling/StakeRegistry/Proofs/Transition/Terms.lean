import StakeRegistry.Proofs.Transition.Queue

/-!
# The terms of an entry

An entry is registered at a height and a fork, with a BLS key or with none, and it ends at a height
once that was asked for. These terms go with the entry through all that a block does; only a request
that is granted sets the end, and only expiry takes the entry away before the transactions. Main
statements:

* `Draft.terms_of_applyTransaction`: what a transaction does to the terms of an entry that it does
  not create;
* `Registry.info?_opened`: the entries that are left when a block begins with its transactions.
-/

set_option autoImplicit false

namespace StakeRegistry

/-! ## One entry -/

namespace NodeInfo

/-- Both entries come from one registration, and end at one height, if at all. -/
structure SameTerms (info info' : NodeInfo) : Prop where
  fork : info'.registrationFork = info.registrationFork
  height : info'.registrationHeight = info.registrationHeight
  unlock : info'.requestedUnlockHeight = info.requestedUnlockHeight
  blsKey : info'.blsKey = info.blsKey

instance : Frame SameTerms where
  refl _ := ⟨rfl, rfl, rfl, rfl⟩
  trans h h' := ⟨h'.fork.trans h.fork, h'.height.trans h.height, h'.unlock.trans h.unlock,
    h'.blsKey.trans h.blsKey⟩

theorem sameTerms_creditStake (info : NodeInfo) (fork : HardFork) (height index : Nat)
    (stake : Stake) : info.SameTerms (info.creditStake fork height index stake) := by
  obtain ⟨_, _, _, _, heq⟩ := info.exists_creditStake_eq fork height index stake
  rw [heq]
  exact ⟨rfl, rfl, rfl, rfl⟩

/-- The terms of an ordinary registration. -/
theorem terms_of_registeredNode {suite : CryptoSuite} {rules : NetworkRules} {place : BlockPlace}
    {tx : Transaction} {key : PublicKey} {info : NodeInfo}
    (h : registeredNode suite rules place tx = .ok (some (key, info))) :
    info.registrationFork = place.fork ∧ info.registrationHeight = place.height ∧
      info.requestedUnlockHeight = 0 ∧ info.blsKey = 0 := by
  obtain ⟨reg, operator, value, others, -, -, -, -, rfl⟩ := registeredNode_eq_some h
  exact ⟨rfl, rfl, rfl, rfl⟩

end NodeInfo

/-! ## Entries of two registries -/

namespace Registry

/-- Both registries have entries under the same keys, and a relation holds of each two. -/
def PairsEntries (R : NodeInfo → NodeInfo → Prop) (r r' : Registry) : Prop :=
  ∀ key, Option.Rel R (r.info? key) (r'.info? key)

namespace PairsEntries

variable {R : NodeInfo → NodeInfo → Prop} {r r' r'' : Registry} {key : PublicKey}

theorem exists_after (h : r.PairsEntries R r') {info : NodeInfo} (hinfo : r.info? key = some info) :
    ∃ info', r'.info? key = some info' ∧ R info info' := by
  have hrel := h key
  rw [hinfo] at hrel
  cases hinfo' : r'.info? key with
  | none =>
      rw [hinfo'] at hrel
      cases hrel
  | some info' =>
      rw [hinfo'] at hrel
      cases hrel with
      | some hrel => exact ⟨info', rfl, hrel⟩

theorem exists_before (h : r.PairsEntries R r') {info' : NodeInfo}
    (hinfo' : r'.info? key = some info') : ∃ info, r.info? key = some info ∧ R info info' := by
  have hrel := h key
  rw [hinfo'] at hrel
  cases hinfo : r.info? key with
  | none =>
      rw [hinfo] at hrel
      cases hrel
  | some info =>
      rw [hinfo] at hrel
      cases hrel with
      | some hrel => exact ⟨info, rfl, hrel⟩

theorem eq_none_iff (h : r.PairsEntries R r') : r'.info? key = none ↔ r.info? key = none := by
  have hrel := h key
  revert hrel
  generalize r.info? key = before
  generalize r'.info? key = after
  rintro (_ | _) <;> simp

variable [NodeInfo.Frame R]

theorem of_nodes (h : r'.nodes = r.nodes) : r.PairsEntries R r' := by
  intro key
  rw [info?_of_nodes h]
  cases r.info? key with
  | none => exact .none
  | some info => exact .some (NodeInfo.Frame.refl info)

theorem refl (r : Registry) : r.PairsEntries R r := of_nodes rfl

theorem trans (h : r.PairsEntries R r') (h' : r'.PairsEntries R r'') : r.PairsEntries R r'' := by
  intro key
  cases hinfo : r.info? key with
  | none =>
      cases hinfo'' : r''.info? key with
      | none => exact .none
      | some info'' =>
          obtain ⟨info', hinfo', -⟩ := h'.exists_before hinfo''
          obtain ⟨info, hsome, -⟩ := h.exists_before hinfo'
          cases hinfo.symm.trans hsome
  | some info =>
      obtain ⟨info', hinfo', hfirst⟩ := h.exists_after hinfo
      obtain ⟨info'', hinfo'', hsecond⟩ := h'.exists_after hinfo'
      rw [hinfo'']
      exact .some (NodeInfo.Frame.trans hfirst hsecond)

theorem put {info info' : NodeInfo} (hinfo : r.info? key = some info) (hsame : R info info') :
    r.PairsEntries R (r.put key info') := by
  intro key'
  rw [info?_put]
  split
  · rename_i hkey
    rw [hkey, hinfo]
    exact .some hsame
  · exact refl r key'

theorem modify {f : NodeInfo → NodeInfo} (hf : ∀ info : NodeInfo, R info (f info)) (r : Registry)
    (key : PublicKey) : r.PairsEntries R (r.modify key f) := by
  intro key'
  rw [info?_modify]
  split
  · rename_i hkey
    rw [hkey]
    cases r.info? key with
    | none => exact .none
    | some info => exact .some (hf info)
  · exact refl r key'

theorem foldl {α : Type} {f : Registry → α → Registry}
    (hf : ∀ (r : Registry) (a : α), r.PairsEntries R (f r a)) (as : List α) (r : Registry) :
    r.PairsEntries R (as.foldl f r) := by
  induction as generalizing r with
  | nil => exact refl r
  | cons a as ih => exact (hf r a).trans (ih (f r a))

end PairsEntries

open NodeInfo (SameTerms)

variable {r next : Registry} {ctx : Context} {block : Block} {txs : List Transaction}
  {outcome : Outcome}

theorem pairsTerms_assignSwarms (r : Registry) (swarms : SwarmMap) :
    r.PairsEntries SameTerms (r.assignSwarms swarms) := by
  refine .foldl (fun r s => ?_) _ r
  exact .foldl (fun r key => .modify (fun _ => ⟨rfl, rfl, rfl, rfl⟩) r key) s.2 r

/-- After its transactions a block changes no terms. -/
theorem pairsTerms_of_apply (h : r.apply ctx block txs = .ok (next, outcome)) :
    (r.draft ctx block txs).registry.PairsEntries SameTerms next := by
  obtain ⟨-, -, quorums, -, rfl⟩ := apply_eq_ok_iff.1 h
  have hsettled : (r.draft ctx block txs).registry.PairsEntries SameTerms
      (r.settled ctx block txs) := by
    unfold settled
    dsimp only
    split
    · exact pairsTerms_assignSwarms _ _
    · exact .refl _
  exact hsettled.trans (.of_nodes rfl)

/-- Up to there a block changes nothing of an entry but its turn. -/
theorem pairsEntries_formed {R : NodeInfo → NodeInfo → Prop} [NodeInfo.Frame R]
    (hturn : ∀ (info : NodeInfo) (turn : PulseSorter), R info { info with pulseSorter := turn })
    (r : Registry) (ctx : Context) (block : Block) : r.PairsEntries R (r.formed ctx block) := by
  have hplaced : r.PairsEntries R (r.atBlock block) := .of_nodes rfl
  have htrimmed : ∀ r : Registry, r.PairsEntries R (r.trimBlacklist block) := by
    intro r
    unfold trimBlacklist
    split
    · exact .of_nodes rfl
    · exact .refl r
  have hnoted : ∀ (r : Registry) (validators : List PublicKey),
      r.PairsEntries R (r.noteTurns block.height validators) := by
    intro r validators
    refine .foldl (fun r v => ?_) _ r
    exact .modify (fun info => hturn info _) r v.1
  refine hplaced.trans (.trans ?_ (htrimmed _))
  unfold formPulseQuorum
  split
  · exact .refl _
  · dsimp only
    split
    · exact (hnoted _ _).trans (.of_nodes rfl)
    · exact .refl _

theorem pairsTerms_formed (r : Registry) (ctx : Context) (block : Block) :
    r.PairsEntries SameTerms (r.formed ctx block) :=
  pairsEntries_formed (fun _ _ => ⟨rfl, rfl, rfl, rfl⟩) r ctx block

end Registry

/-! ## Expiry -/

namespace Draft

theorem info?_foldl_expire (keys : List PublicKey) (d : Draft) (key : PublicKey) :
    (keys.foldl expire d).registry.info? key =
      if key ∈ keys then none else d.registry.info? key := by
  induction keys generalizing d with
  | nil => simp
  | cons first keys ih =>
      have hone : (d.expire first).registry.info? key =
          if key = first then none else d.registry.info? key := by
        unfold expire
        split
        · rename_i hnone
          split
          · rename_i hkey
            rw [hkey, hnone]
          · rfl
        · exact Registry.info?_remove _ _ _
      rw [List.foldl_cons, ih, hone]
      by_cases hkey : key = first <;> by_cases hmem : key ∈ keys <;> simp [hkey, hmem]

end Draft

namespace Registry

open NodeInfo (SameTerms)

variable {ctx : Context} {block : Block}

/-- When a block begins with its transactions, the entries of the nodes that expire are gone. -/
theorem info?_opened_eq_none_iff (r : Registry) (ctx : Context) (block : Block)
    (key : PublicKey) : (r.opened ctx block).registry.info? key = none ↔
      key ∈ (r.formed ctx block).expiring ctx block.fork block.height ∨ r.info? key = none := by
  -- The winner is paid after that, which takes nobody away.
  have hpaid : (((r.formed ctx block).expiring ctx block.fork block.height).foldl Draft.expire
      { registry := r.formed ctx block }).registry.PairsEntries SameTerms
        (r.opened ctx block).registry := .modify (fun _ => ⟨rfl, rfl, rfl, rfl⟩) _ _
  have hformed : (r.formed ctx block).info? key = none ↔ r.info? key = none :=
    (pairsTerms_formed r ctx block).eq_none_iff
  rw [hpaid.eq_none_iff, Draft.info?_foldl_expire]
  by_cases hmem : key ∈ (r.formed ctx block).expiring ctx block.fork block.height <;>
    simp [hmem, hformed]

/-- Before its transactions a block creates no entries, and changes no terms. -/
theorem keepsTerms_opened (r : Registry) (ctx : Context) (block : Block) :
    r.KeepsEntries SameTerms (r.opened ctx block).registry :=
  (keepsEntries_unpaid (fun _ _ => ⟨rfl, rfl, rfl, rfl⟩) r ctx block).trans
    (.modify fun _ => ⟨rfl, rfl, rfl, rfl⟩)

end Registry

/-! ## One transaction -/

namespace Draft

open NodeInfo (SameTerms)

variable {ctx : Context} {block : Block} {index : Nat} {tx : Transaction} {d d' : Draft}
  {key : PublicKey} {info info' : NodeInfo}

/-- A transaction asks for a stake in a node back, and the node grants it. -/
structure Grants (ctx : Context) (block : Block) (tx : Transaction) (d : Draft) (key : PublicKey)
    (info : NodeInfo) (request : KeyImageUnlock) : Prop where
  kind : tx.kind = .keyImageUnlock
  names : tx.nodeKey? = some key
  asks : tx.keyImageUnlock? = some request
  registered : d.registry.info? key = some info
  granted : info.grantsUnlock ctx block.fork block.height request = true

/-- A stake changes no terms. -/
theorem pairsTerms_crediting (h : Crediting ctx block index tx d d') :
    d.registry.PairsEntries SameTerms d'.registry := by
  cases h with
  | nobody => exact .refl _
  | @taken stake info decoded found accepted =>
      exact .put found (info.sameTerms_creditStake _ _ _ _)

/-- A staking transaction that creates an entry enters the node on the terms of its registration;
since infinite staking there was none before. -/
theorem register_of_registered? {origin : Origin}
    (h : d.registered? ctx block index tx = some (key, origin)) :
    origin = .ordinary ∧ (HardFork.infiniteStaking ≤ block.fork → d.registry.info? key = none) ∧
      ∃ info entry, registeredNode ctx.suite ctx.rules (block.place index) tx =
          .ok (some (key, info)) ∧ info.SameTerms entry ∧
        d.register ctx block index tx = d.enter block.fork key entry := by
  unfold registered? at h
  unfold register
  split at h
  case h_1 node info hnode =>
    rw [hnode]
    dsimp only
    cases hold : d.registry.info? node with
    | none =>
      rw [hold] at h
      cases h
      exact ⟨rfl, fun _ => hold, info, info, rfl, NodeInfo.Frame.refl info, rfl⟩
    | some old =>
      rw [hold] at h
      obtain ⟨renewed, hrenewed, hkey⟩ := Option.map_eq_some_iff.1 h
      cases hkey
      have hearly : ¬ HardFork.infiniteStaking ≤ block.fork ∧ info.SameTerms renewed := by
        unfold reregistered? at hrenewed
        split at hrenewed
        · cases hrenewed
        · rename_i hearly
          cases hrenewed
          exact ⟨fun hfork => hearly (.inl hfork), rfl, rfl, rfl, rfl⟩
      refine ⟨rfl, fun hfork => absurd hfork hearly.1, info, renewed, rfl, hearly.2, ?_⟩
      dsimp only
      rw [hrenewed]
  case h_2 => cases h

/-- An ordinary registration that creates an entry leaves it on its own terms. -/
theorem registered_of_created? (h : d.created? ctx block index tx = some (key, .ordinary)) :
    ∃ info entry, registeredNode ctx.suite ctx.rules (block.place index) tx =
        .ok (some (key, info)) ∧ info.SameTerms entry ∧
      (d.applyTransaction ctx block tx index).registry.info? key = some entry := by
  unfold created? at h
  split at h
  case isTrue hkind =>
    obtain ⟨-, -, info, entry, hnode, hsame, hentered⟩ := register_of_registered? h
    have hfound : (d.register ctx block index tx).registry.info? key = some entry := by
      rw [hentered, enter, Registry.info?_put, if_pos rfl]
    obtain ⟨funded, hfunded, hlater⟩ :=
      (pairsTerms_crediting (crediting_contribute index tx _)).exists_after hfound
    refine ⟨info, funded, hnode, NodeInfo.Frame.trans hsame hlater, ?_⟩
    unfold applyTransaction
    rw [if_pos hkind]
    exact hfunded
  case isFalse =>
    split at h
    · unfold bridged? at h
      split at h <;> cases h
    · cases h

/-- A registration through the bridge enters the node as it comes. -/
theorem bridged_of_created? (h : d.created? ctx block index tx = some (key, .bridge)) :
    tx.kind = .bridgeRegistration ∧ ∃ info, bridgedNode ctx.suite ctx.rules (block.place index) tx =
        .ok (key, info) ∧
      (d.applyTransaction ctx block tx index).registry.info? key = some info := by
  unfold created? at h
  split at h
  case isTrue => cases (register_of_registered? h).1
  case isFalse hstakes =>
    split at h
    case isTrue hkind =>
      unfold bridged? at h
      split at h
      case h_1 node info hnode =>
        cases h
        refine ⟨hkind, info, hnode, ?_⟩
        unfold applyTransaction
        rw [if_neg hstakes, hkind]
        dsimp only
        unfold registerBridged
        rw [hnode]
        exact (Registry.info?_put _ _ _ _).trans (if_pos rfl)
      case h_2 => cases h
    case isFalse => cases h

/-- What a transaction does to the terms of an entry that it does not create: it leaves them, or
sets the end of the node because its request is granted or because the node is to leave through
the bridge. -/
theorem terms_of_applyTransaction
    (hold : ∀ origin, d.created? ctx block index tx ≠ some (key, origin))
    (hinfo' : (d.applyTransaction ctx block tx index).registry.info? key = some info') :
    ∃ info, d.registry.info? key = some info ∧
      (info.SameTerms info' ∨
        (∃ request, Grants ctx block tx d key info request ∧
          info' = info.unlockingAt ctx.rules block.height) ∨
        tx.kind = .bridgeLeave ∧ info' = info.leavingAt ctx.rules block.height) := by
  have hkept : ∀ {P : NodeInfo → Prop}, d.registry.info? key = some info' →
      ∃ info, d.registry.info? key = some info ∧ (info.SameTerms info' ∨ P info) :=
    fun h => ⟨info', h, .inl (NodeInfo.Frame.refl info')⟩
  have hmove : Move ctx block index tx d (d.applyTransaction ctx block tx index) :=
    move_applyTransaction d tx index
  generalize d.applyTransaction ctx block tx index = after at hmove hinfo'
  -- An entry of another node is as it was.
  have hput : ∀ {node : PublicKey} {old new : NodeInfo}, d.registry.info? node = some old →
      (d.registry.put node new).info? key = some info' → old.SameTerms new →
        ∃ info, d.registry.info? key = some info ∧ info.SameTerms info' := by
    intro node old new hfound hinfo' hsame
    exact Registry.KeepsEntries.put hfound hsame key info' hinfo'
  have hremove : ∀ {node : PublicKey}, (d.registry.remove node).info? key = some info' →
      ∃ info, d.registry.info? key = some info ∧ info.SameTerms info' :=
    fun h => Registry.KeepsEntries.remove d.registry _ key info' h
  cases hmove with
  | nothing => exact hkept hinfo'
  | @staked entered funded kind enters credits =>
      obtain ⟨info, hinfo, hsame⟩ := (pairsTerms_crediting credits).exists_before hinfo'
      rcases info?_of_entering enters kind key with hstill | hcreated
      · exact ⟨info, hstill ▸ hinfo, .inl hsame⟩
      · exact absurd hcreated (hold .ordinary)
  | deregistered kind votes asked =>
      obtain ⟨info, hinfo, hsame⟩ := hremove hinfo'
      exact ⟨info, hinfo, .inl hsame⟩
  | decommissioned kind votes asked fork up =>
      obtain ⟨info, hinfo, hsame⟩ := hput votes.registered hinfo' ⟨rfl, rfl, rfl, rfl⟩
      exact ⟨info, hinfo, .inl hsame⟩
  | recommissioned kind votes asked fork down =>
      obtain ⟨info, hinfo, hsame⟩ := hput votes.registered hinfo' ⟨rfl, rfl, rfl, rfl⟩
      exact ⟨info, hinfo, .inl hsame⟩
  | penalised kind votes asked fork up =>
      obtain ⟨info, hinfo, hsame⟩ := hput votes.registered hinfo' ⟨rfl, rfl, rfl, rfl⟩
      exact ⟨info, hinfo, .inl hsame⟩
  | @unlocking node old request kind names asks found granted =>
      rw [mapRegistry, Registry.info?_put] at hinfo'
      split at hinfo'
      · rename_i hkey
        cases hinfo'
        subst hkey
        exact ⟨old, found, .inr (.inl ⟨request, ⟨kind, names, asks, found, granted⟩, rfl⟩)⟩
      · exact hkept hinfo'
  | @bridged node old kind registers =>
      rw [enterBridged, Registry.info?_put] at hinfo'
      split at hinfo'
      · rename_i hkey
        exact absurd (hkey ▸ created?_of_bridgedNode kind registers) (hold .bridge)
      · exact hkept hinfo'
  | @leaving node old kind names found =>
      rw [mapRegistry, Registry.info?_put] at hinfo'
      split at hinfo'
      · rename_i hkey
        cases hinfo'
        exact ⟨old, hkey ▸ found, .inr (.inr ⟨kind, rfl⟩)⟩
      · exact hkept hinfo'
  | exited kind => exact hkept hinfo'
  | expelled kind names =>
      obtain ⟨info, hinfo, hsame⟩ := hremove hinfo'
      exact ⟨info, hinfo, .inl hsame⟩

end Draft

end StakeRegistry
