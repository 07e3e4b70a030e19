import StakeRegistry.Proofs.Staking.Crediting
import StakeRegistry.Transition.Apply

/-!
# What changes stakes and turns

Only registrations and contributions change stakes, and only registrations and Pulse quorums
change whose turn it is to validate. Everything else that happens in a block may remove entries
and change their standing, and leaves the stakes and turns of those that stay as they were
(`Registry.KeepsShares`).
-/

set_option autoImplicit false

namespace StakeRegistry

/-! ## Two states of an entry -/

namespace NodeInfo

/-- A relation of what an entry was to what it is now that goes on from step to step. -/
class Frame (R : NodeInfo → NodeInfo → Prop) : Prop where
  refl : ∀ info, R info info
  trans : ∀ {info info' info'' : NodeInfo}, R info info' → R info' info'' → R info info''

instance : Frame SameStakes := ⟨.refl, .trans⟩

/-- Both entries have the same stakes, and the same turn to validate. -/
structure SameShare (info info' : NodeInfo) : Prop extends SameStakes info info' where
  sorter : info'.pulseSorter = info.pulseSorter

instance : Frame SameShare where
  refl info := ⟨.refl info, rfl⟩
  trans h h' := ⟨h.toSameStakes.trans h'.toSameStakes, h'.sorter.trans h.sorter⟩

end NodeInfo

/-! ## Entries of a registry -/

namespace Registry

theorem info?_put (r : Registry) (key key' : PublicKey) (info : NodeInfo) :
    (r.put key info).info? key' = if key' = key then some info else r.info? key' :=
  SortedMap.get?_insert _ _ _ _

theorem info?_remove (r : Registry) (key key' : PublicKey) :
    (r.remove key).info? key' = if key' = key then none else r.info? key' :=
  SortedMap.get?_erase _ _ _

/-- Every entry of the second registry is one of the first, up to a relation of the two. -/
def KeepsEntries (R : NodeInfo → NodeInfo → Prop) (r r' : Registry) : Prop :=
  ∀ key info', r'.info? key = some info' → ∃ info, r.info? key = some info ∧ R info info'

/-- Every entry of the second registry is one of the first, with the same stakes. -/
abbrev KeepsStakes : Registry → Registry → Prop := KeepsEntries NodeInfo.SameStakes

/-- Every entry of the second registry is one of the first, with the same stakes and turn. -/
abbrev KeepsShares : Registry → Registry → Prop := KeepsEntries NodeInfo.SameShare

namespace KeepsEntries

theorem keepsStakes {r r' : Registry} (h : r.KeepsShares r') : r.KeepsStakes r' := by
  intro key info' hinfo'
  obtain ⟨info, hinfo, hsame⟩ := h key info' hinfo'
  exact ⟨info, hinfo, hsame.toSameStakes⟩

variable {R : NodeInfo → NodeInfo → Prop} [NodeInfo.Frame R]

theorem refl (r : Registry) : r.KeepsEntries R r :=
  fun _ info h => ⟨info, h, NodeInfo.Frame.refl info⟩

theorem trans {r r' r'' : Registry} (h : r.KeepsEntries R r') (h' : r'.KeepsEntries R r'') :
    r.KeepsEntries R r'' := by
  intro key info'' hinfo''
  obtain ⟨info', hinfo', hsame'⟩ := h' key info'' hinfo''
  obtain ⟨info, hinfo, hsame⟩ := h key info' hinfo'
  exact ⟨info, hinfo, NodeInfo.Frame.trans hsame hsame'⟩

/-- Registries with the same nodes have the same entries. -/
theorem of_nodes {r r' : Registry} (h : r'.nodes = r.nodes) : r.KeepsEntries R r' := by
  intro key info hinfo
  refine ⟨info, ?_, NodeInfo.Frame.refl info⟩
  unfold info? at hinfo ⊢
  rwa [h] at hinfo

theorem put {r : Registry} {key : PublicKey} {info info' : NodeInfo}
    (hinfo : r.info? key = some info) (hsame : R info info') :
    r.KeepsEntries R (r.put key info') := by
  intro key' info'' h
  rw [info?_put] at h
  split at h
  · rename_i hkey
    cases h
    exact ⟨info, hkey ▸ hinfo, hsame⟩
  · exact ⟨info'', h, NodeInfo.Frame.refl info''⟩

theorem remove (r : Registry) (key : PublicKey) : r.KeepsEntries R (r.remove key) := by
  intro key' info h
  rw [info?_remove] at h
  split at h
  · cases h
  · exact ⟨info, h, NodeInfo.Frame.refl info⟩

theorem modify {r : Registry} {key : PublicKey} {f : NodeInfo → NodeInfo}
    (hf : ∀ info : NodeInfo, R info (f info)) : r.KeepsEntries R (r.modify key f) := by
  unfold Registry.modify
  split
  · rename_i info hinfo
    exact put hinfo (hf info)
  · exact refl r

theorem foldl {α : Type} {f : Registry → α → Registry}
    (hf : ∀ (r : Registry) (a : α), r.KeepsEntries R (f r a)) (as : List α) (r : Registry) :
    r.KeepsEntries R (as.foldl f r) := by
  induction as generalizing r with
  | nil => exact refl r
  | cons a as ih => exact (hf r a).trans (ih (f r a))

/-- A Pulse quorum changes nothing but turns. -/
theorem formPulseQuorum
    (hturn : ∀ (info : NodeInfo) (turn : PulseSorter), R info { info with pulseSorter := turn })
    (r : Registry) (ctx : Context) (block : Block) (winner : PublicKey) :
    r.KeepsEntries R (r.formPulseQuorum ctx block winner) := by
  unfold Registry.formPulseQuorum
  split
  · exact refl r
  · dsimp only
    split
    · have hnoted : r.KeepsEntries R (r.noteTurns block.height
          (r.quorumProducing ctx.rules ctx.suite ctx.chain block winner).validators) :=
        foldl (fun _ _ => modify fun info => hturn info _) _ r
      exact hnoted.trans (of_nodes rfl)
    · exact refl r

theorem trimBlacklist (r : Registry) (block : Block) :
    r.KeepsEntries R (r.trimBlacklist block) := by
  unfold Registry.trimBlacklist
  split
  · exact .of_nodes rfl
  · exact .refl r

theorem payWinner (r : Registry) (block : Block) (winner : PublicKey) :
    r.KeepsShares (r.payWinner block winner) :=
  .modify fun _ => ⟨⟨rfl, rfl, rfl, rfl, rfl, rfl, rfl⟩, rfl⟩

theorem assignSwarms (r : Registry) (swarms : SwarmMap) :
    r.KeepsShares (r.assignSwarms swarms) := by
  refine .foldl (fun r s => ?_) _ r
  refine .foldl (fun r key => ?_) s.2 r
  exact .modify fun _ => ⟨⟨rfl, rfl, rfl, rfl, rfl, rfl, rfl⟩, rfl⟩

end KeepsEntries

end Registry

/-! ## Drafts -/

namespace Draft

open Registry (KeepsShares)

theorem keepsEntries_expire {R : NodeInfo → NodeInfo → Prop} [NodeInfo.Frame R] (d : Draft)
    (key : PublicKey) : d.registry.KeepsEntries R (d.expire key).registry := by
  unfold expire
  split
  · exact .refl _
  · exact .remove _ _

theorem keepsEntries_expireNodes {R : NodeInfo → NodeInfo → Prop} [NodeInfo.Frame R]
    (ctx : Context) (block : Block) (d : Draft) :
    d.registry.KeepsEntries R (d.expireNodes ctx block).registry := by
  unfold expireNodes
  generalize d.registry.expiring ctx block.fork block.height = keys
  induction keys generalizing d with
  | nil => exact .refl _
  | cons key keys ih => exact (keepsEntries_expire d key).trans (ih (d.expire key))

theorem keepsShares_changeState (ctx : Context) (block : Block) (change : StateChange)
    {key : PublicKey} {info : NodeInfo} {d : Draft} (hinfo : d.registry.info? key = some info) :
    d.registry.KeepsShares (d.changeState ctx block change key info).registry := by
  unfold changeState
  split
  · exact Registry.KeepsEntries.trans (.remove _ key) (.of_nodes rfl)
  all_goals
    split
    · exact .refl _
    · exact .put hinfo ⟨⟨rfl, rfl, rfl, rfl, rfl, rfl, rfl⟩, rfl⟩

theorem keepsShares_applyStateChange (ctx : Context) (block : Block) (tx : Transaction)
    (d : Draft) : d.registry.KeepsShares (d.applyStateChange ctx block tx).registry := by
  unfold applyStateChange
  split
  · exact .refl _
  · split
    · exact .refl _
    · split
      · exact .refl _
      · rename_i hinfo
        exact keepsShares_changeState ctx block _ hinfo

theorem keepsShares_unlock (ctx : Context) (block : Block) (tx : Transaction) (d : Draft) :
    d.registry.KeepsShares (d.unlock ctx block tx).registry := by
  unfold unlock
  split
  · split
    · exact .refl _
    · rename_i hinfo
      split
      · exact .put hinfo ⟨⟨rfl, rfl, rfl, rfl, rfl, rfl, rfl⟩, rfl⟩
      · exact .refl _
  · exact .refl _

theorem keepsShares_leave (ctx : Context) (block : Block) (tx : Transaction) (d : Draft) :
    d.registry.KeepsShares (d.leave ctx block tx).registry := by
  unfold leave
  split
  · exact .refl _
  · refine .modify fun info => ?_
    split
    · exact ⟨⟨rfl, rfl, rfl, rfl, rfl, rfl, rfl⟩, rfl⟩
    · exact NodeInfo.Frame.refl info

theorem keepsShares_exit (ctx : Context) (block : Block) (tx : Transaction) (d : Draft) :
    d.registry.KeepsShares (d.exit ctx block tx).registry := by
  unfold exit
  split
  · exact .refl _
  · split
    · exact .refl _
    · split
      · exact .refl _
      · exact .refl _

theorem keepsShares_expel (tx : Transaction) (d : Draft) :
    d.registry.KeepsShares (d.expel tx).registry := by
  unfold expel
  split
  · exact .refl _
  · exact .remove _ _

end Draft

namespace Registry

/-- The draft of a block before its winner is paid. -/
def unpaid (r : Registry) (ctx : Context) (block : Block) : Draft :=
  Draft.expireNodes ctx block
    { registry := ((r.atBlock block).formPulseQuorum ctx block
        (block.minerTx.winner?.getD 0)).trimBlacklist block }

theorem opened_eq (r : Registry) (ctx : Context) (block : Block) :
    r.opened ctx block = (r.unpaid ctx block).mapRegistry
      (·.payWinner block (block.minerTx.winner?.getD 0)) := rfl

/-- Before it pays its winner, a block notes the turns of its validators and removes nodes. -/
theorem keepsEntries_unpaid {R : NodeInfo → NodeInfo → Prop} [NodeInfo.Frame R]
    (hturn : ∀ (info : NodeInfo) (turn : PulseSorter), R info { info with pulseSorter := turn })
    (r : Registry) (ctx : Context) (block : Block) :
    r.KeepsEntries R (r.unpaid ctx block).registry := by
  have hplaced : r.KeepsEntries R (r.atBlock block) := .of_nodes rfl
  exact hplaced.trans (.trans (.formPulseQuorum hturn _ ctx block _)
    (.trans (.trimBlacklist _ block) (Draft.keepsEntries_expireNodes ctx block _)))

/-- After its Pulse quorum is formed, and before its transactions, a block changes no shares. -/
theorem keepsShares_opened (r : Registry) (ctx : Context) (block : Block) :
    ((r.atBlock block).formPulseQuorum ctx block (block.minerTx.winner?.getD 0)).KeepsShares
      (r.opened ctx block).registry := by
  refine KeepsEntries.trans (.trimBlacklist _ block) (KeepsEntries.trans ?_ (.payWinner _ block _))
  exact Draft.keepsEntries_expireNodes ctx block (Draft.mk _ {} false)

/-- After its transactions a block changes no shares. -/
theorem keepsShares_settled (r : Registry) (ctx : Context) (block : Block)
    (txs : List Transaction) :
    (r.draft ctx block txs).registry.KeepsShares (r.settled ctx block txs) := by
  unfold settled
  dsimp only
  split
  · exact .assignSwarms _ _
  · exact .refl _

end Registry

end StakeRegistry
