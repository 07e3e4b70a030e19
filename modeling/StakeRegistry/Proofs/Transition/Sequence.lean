import StakeRegistry.Proofs.Transition.Applied
import StakeRegistry.Proofs.Transition.Terms

/-!
# The transactions of a run, one after the other

Blocks that were applied in a row, taken apart into their transactions, each with the draft that it
was applied to (`AppliedTx`). Between two of them a block may end and the next one begin; that
creates no entry, and leaves the stakes and the terms of those that stay (`Registry.Retains`). So
what is known of an entry is carried along a run transaction by transaction. Main statements:

* `Draft.stakes_of_applyTransaction`: what a transaction does to the stakes of an entry that it
  does not create;
* `Registry.passes_of_apply`: a block passes through its transactions;
* `Registry.Passes.induction`: what transactions and block boundaries keep holds all along a run.
-/

set_option autoImplicit false

namespace StakeRegistry

/-! ## One transaction -/

namespace NodeInfo

/-- Both entries have the same stakes, on the same terms. -/
structure SameFooting (info info' : NodeInfo) : Prop extends
  SameStakes info info', SameTerms info info'

instance : Frame SameFooting where
  refl info := ⟨.refl info, Frame.refl info⟩
  trans h h' := ⟨h.toSameStakes.trans h'.toSameStakes, Frame.trans h.toSameTerms h'.toSameTerms⟩

end NodeInfo

namespace Draft

variable {ctx : Context} {block : Block} {index : Nat} {tx : Transaction} {d : Draft}
  {key : PublicKey} {info info' : NodeInfo}

/-- A transaction brings a stake that a registered node takes. -/
structure Credits (ctx : Context) (block : Block) (tx : Transaction) (d : Draft) (key : PublicKey)
    (info : NodeInfo) (stake : Stake) : Prop where
  kind : tx.kind = TxKind.ofStakes block.fork
  decoded : Stake.ofTransaction? ctx.suite ctx.rules block.fork tx block.height = some stake
  names : stake.nodeKey = key
  registered : d.registry.info? key = some info
  accepted : info.acceptsStake block.fork stake = true

/-- What a transaction does to the stakes of an entry that it does not create: it leaves them, or
credits the stake that it brings. -/
theorem stakes_of_applyTransaction
    (hold : ∀ origin, d.created? ctx block index tx ≠ some (key, origin))
    (hinfo' : (d.applyTransaction ctx block tx index).registry.info? key = some info') :
    ∃ info, d.registry.info? key = some info ∧
      (info.SameStakes info' ∨ ∃ stake, Credits ctx block tx d key info stake ∧
        info' = info.creditStake block.fork block.height index stake) := by
  have hkept : ∀ {d' : Draft}, d.registry.KeepsStakes d'.registry →
      d'.registry.info? key = some info' → ∃ info, d.registry.info? key = some info ∧
        (info.SameStakes info' ∨ ∃ stake, Credits ctx block tx d key info stake ∧
          info' = info.creditStake block.fork block.height index stake) := by
    intro d' hkeeps hinfo'
    obtain ⟨info, hinfo, hsame⟩ := hkeeps key info' hinfo'
    exact ⟨info, hinfo, .inl hsame⟩
  unfold applyTransaction at hinfo'
  split at hinfo'
  case isTrue hkind =>
    have hentered : (d.register ctx block index tx).registry.info? key = d.registry.info? key := by
      rcases info?_of_entering (entering_register index tx d) hkind key with hsame | hcreated
      · exact hsame
      · exact absurd hcreated (hold .ordinary)
    have hcredits : Crediting ctx block index tx (d.register ctx block index tx)
        ((d.register ctx block index tx).contribute ctx block index tx) :=
      crediting_contribute index tx _
    generalize (d.register ctx block index tx).contribute ctx block index tx = after
      at hcredits hinfo'
    cases hcredits with
    | nobody =>
        rw [hentered] at hinfo'
        exact hkept (.refl _) hinfo'
    | @taken stake info decoded found accepted =>
        rw [credited, Registry.info?_put] at hinfo'
        split at hinfo'
        · rename_i hkey
          cases hinfo'
          rw [← hkey, hentered] at found
          exact ⟨info, found, .inr ⟨stake, ⟨hkind, decoded, hkey.symm, found, accepted⟩, rfl⟩⟩
        · rw [hentered] at hinfo'
          exact hkept (.refl _) hinfo'
  case isFalse =>
    cases hkind : tx.kind with
    | stateChange =>
        rw [hkind] at hinfo'
        exact hkept (keepsShares_applyStateChange ctx block tx d).keepsStakes hinfo'
    | keyImageUnlock =>
        rw [hkind] at hinfo'
        exact hkept (keepsShares_unlock ctx block tx d).keepsStakes hinfo'
    | bridgeRegistration =>
        rw [hkind] at hinfo'
        dsimp only at hinfo'
        unfold registerBridged at hinfo'
        split at hinfo'
        · exact hkept (.refl _) hinfo'
        · rename_i node entry hregisters
          have hother : key ≠ node := by
            rintro rfl
            exact hold .bridge (created?_of_bridgedNode hkind hregisters)
          rw [Registry.info?_put, if_neg hother] at hinfo'
          exact hkept (.refl _) hinfo'
    | bridgeLeave =>
        rw [hkind] at hinfo'
        exact hkept (keepsShares_leave ctx block tx d).keepsStakes hinfo'
    | bridgeExit =>
        rw [hkind] at hinfo'
        exact hkept (keepsShares_exit ctx block tx d).keepsStakes hinfo'
    | bridgeDeregister =>
        rw [hkind] at hinfo'
        exact hkept (keepsShares_expel tx d).keepsStakes hinfo'
    | standard =>
        rw [hkind] at hinfo'
        exact hkept (.refl _) hinfo'
    | stake =>
        rw [hkind] at hinfo'
        exact hkept (.refl _) hinfo'

end Draft

/-- A transaction that was applied: in which block, where in it, and to which draft. -/
structure AppliedTx where
  ctx : Context
  block : Block
  index : Nat
  tx : Transaction
  before : Draft

namespace AppliedTx

variable (s : AppliedTx)

/-- The draft that the transaction has left. -/
def after : Draft := s.before.applyTransaction s.ctx s.block s.tx s.index

/-- The key under which the transaction created an entry, if it did. -/
def created? : Option (PublicKey × Origin) := s.before.created? s.ctx s.block s.index s.tx

/-- The transaction registered a node through the bridge. -/
structure Bridges (key : PublicKey) (info : NodeInfo) : Prop where
  kind : s.tx.kind = .bridgeRegistration
  registers : bridgedNode s.ctx.suite s.ctx.rules (s.block.place s.index) s.tx = .ok (key, info)

variable {s} {key : PublicKey} {info : NodeInfo}

/-- A registration through the bridge enters the node, whoever is registered already. -/
theorem Bridges.after_eq (h : s.Bridges key info) : s.after = s.before.enterBridged key info := by
  have hstakes : s.tx.kind ≠ TxKind.ofStakes s.block.fork :=
    TxKind.ne_ofStakes (by rw [h.kind]; decide) _
  unfold after Draft.applyTransaction
  rw [if_neg hstakes, h.kind]
  dsimp only
  unfold Draft.registerBridged
  rw [h.registers]
  rfl

theorem Bridges.info?_after (h : s.Bridges key info) (key' : PublicKey) :
    s.after.registry.info? key' =
      if key' = key then some info else s.before.registry.info? key' := by
  rw [h.after_eq]
  exact Registry.info?_put _ _ _ _

end AppliedTx

/-- The transactions of a block, from a position on, applied to a draft in order. -/
def Draft.stepsFrom (ctx : Context) (block : Block) :
    List Transaction → Nat → Draft → List AppliedTx
  | [], _, _ => []
  | tx :: txs, index, d =>
      ⟨ctx, block, index, tx, d⟩ ::
        stepsFrom ctx block txs (index + 1) (d.applyTransaction ctx block tx index)

/-- The transactions of a block that is applied to a registry. -/
def Registry.steps (r : Registry) (ctx : Context) (block : Block) (txs : List Transaction) :
    List AppliedTx :=
  Draft.stepsFrom ctx block txs 0 (r.opened ctx block)

/-- The transactions of a block that was applied. -/
def Applied.steps (a : Applied) : List AppliedTx := a.before.steps a.ctx a.block a.txs

/-! ## From one transaction to the next -/

namespace Registry

open NodeInfo (SameFooting)

/-- Every entry of the second registry is one of the first, with the same stakes on the same
terms. -/
abbrev Retains : Registry → Registry → Prop := KeepsEntries SameFooting

/-- An entry that a node has in the second registry, it has in the first, up to a relation of the
two. -/
def KeepsEntry (R : NodeInfo → NodeInfo → Prop) (key : PublicKey) (r r' : Registry) : Prop :=
  ∀ info', r'.info? key = some info' → ∃ info, r.info? key = some info ∧ R info info'

namespace KeepsEntry

variable {R : NodeInfo → NodeInfo → Prop} [NodeInfo.Frame R] {key : PublicKey}
  {r r' r'' : Registry}

theorem refl (r : Registry) : r.KeepsEntry R key r :=
  fun info hinfo => ⟨info, hinfo, NodeInfo.Frame.refl info⟩

theorem trans (h : r.KeepsEntry R key r') (h' : r'.KeepsEntry R key r'') :
    r.KeepsEntry R key r'' := by
  intro info'' hinfo''
  obtain ⟨info', hinfo', hsecond⟩ := h' info'' hinfo''
  obtain ⟨info, hinfo, hfirst⟩ := h info' hinfo'
  exact ⟨info, hinfo, NodeInfo.Frame.trans hfirst hsecond⟩

end KeepsEntry

/-- Applied transactions lead from a registry to another. In between, entries may go. -/
inductive Passes : Registry → List AppliedTx → Registry → Prop where
  | settle {r r' : Registry} (kept : r.Retains r') : Passes r [] r'
  | cons {r r' : Registry} {s : AppliedTx} {steps : List AppliedTx}
      (kept : r.Retains s.before.registry) (rest : Passes s.after.registry steps r') :
      Passes r (s :: steps) r'

variable {r r' r'' next : Registry} {steps later : List AppliedTx} {ctx : Context} {block : Block}
  {txs : List Transaction} {outcome : Outcome}

namespace Passes

theorem refl (r : Registry) : Passes r [] r := .settle (.refl r)

theorem of_retains (h : r.Retains r') (h' : Passes r' steps r'') : Passes r steps r'' := by
  cases h' with
  | settle kept => exact .settle (KeepsEntries.trans h kept)
  | cons kept rest => exact .cons (KeepsEntries.trans h kept) rest

theorem append (h : Passes r steps r') (h' : Passes r' later r'') :
    Passes r (steps ++ later) r'' := by
  induction h with
  | settle kept => exact h'.of_retains kept
  | cons kept _ ih => exact .cons kept (ih h')

theorem of_append (h : Passes r (steps ++ later) r'') :
    ∃ r', Passes r steps r' ∧ Passes r' later r'' := by
  induction steps generalizing r with
  | nil => exact ⟨r, refl r, h⟩
  | cons s steps ih =>
      cases h with
      | cons kept rest =>
          obtain ⟨r', hsteps, hlater⟩ := ih rest
          exact ⟨r', .cons kept hsteps, hlater⟩

/-- What block boundaries keep, and each of some transactions, holds of the registries before and
after each of them. -/
theorem induction {I : Registry → Prop} (h : Passes r steps r') (hr : I r)
    (retained : ∀ {r r' : Registry}, I r → r.Retains r' → I r')
    (applied : ∀ s ∈ steps, I s.before.registry → I s.after.registry) :
    I r' ∧ ∀ s ∈ steps, I s.before.registry ∧ I s.after.registry := by
  induction h with
  | settle kept => exact ⟨retained hr kept, by simp⟩
  | @cons r r' s steps kept rest ih =>
      have hbefore : I s.before.registry := retained hr kept
      have hafter : I s.after.registry := applied s (by simp) hbefore
      obtain ⟨hlast, hall⟩ := ih hafter fun s' hs' => applied s' (by simp [hs'])
      refine ⟨hlast, fun s' hs' => ?_⟩
      rcases List.mem_cons.1 hs' with rfl | hs'
      · exact ⟨hbefore, hafter⟩
      · exact hall s' hs'

/-- What becomes of one node's entry by each transaction of a run, becomes of it by the run, and by
the transactions before each of them. -/
theorem keepsEntry {R : NodeInfo → NodeInfo → Prop} [NodeInfo.Frame R] {key : PublicKey}
    (h : Passes r steps r')
    (hfooting : ∀ {info info' : NodeInfo}, info.SameFooting info' → R info info')
    (hstep : ∀ s ∈ steps, s.before.registry.KeepsEntry R key s.after.registry) :
    r.KeepsEntry R key r' ∧ ∀ s ∈ steps, r.KeepsEntry R key s.before.registry := by
  have hall := h.induction (I := r.KeepsEntry R key) (.refl r)
    (fun hkept hretains => hkept.trans fun info' hinfo' => by
      obtain ⟨info, hinfo, hsame⟩ := hretains key info' hinfo'
      exact ⟨info, hinfo, hfooting hsame⟩)
    (fun s hs hkept => hkept.trans (hstep s hs))
  exact ⟨hall.1, fun s hs => (hall.2 s hs).1⟩

end Passes

theorem retains_of_keeps (hstakes : r.KeepsStakes r')
    (hterms : r.KeepsEntries NodeInfo.SameTerms r') : r.Retains r' := by
  intro key info' hinfo'
  obtain ⟨info, hinfo, hsame⟩ := hstakes key info' hinfo'
  obtain ⟨info₂, hinfo₂, hsame₂⟩ := hterms key info' hinfo'
  obtain rfl : info = info₂ := Option.some.inj (hinfo.symm.trans hinfo₂)
  exact ⟨info, hinfo, hsame, hsame₂⟩

/-- Before its transactions a block changes no stakes and no terms. -/
theorem retains_opened (r : Registry) (ctx : Context) (block : Block) :
    r.Retains (r.opened ctx block).registry :=
  retains_of_keeps (r.keepsStakes_opened ctx block) (r.keepsTerms_opened ctx block)

/-- Neither does it after its transactions. -/
theorem retains_of_apply (h : r.apply ctx block txs = .ok (next, outcome)) :
    (r.draft ctx block txs).registry.Retains next := by
  refine retains_of_keeps ?_ fun _ _ => (pairsTerms_of_apply h).exists_before
  obtain ⟨-, -, quorums, -, rfl⟩ := apply_eq_ok_iff.1 h
  exact KeepsEntries.trans (keepsShares_settled r ctx block txs).keepsStakes (.of_nodes rfl)

theorem passes_stepsFrom (txs : List Transaction) (index : Nat) (d : Draft) :
    Passes d.registry (Draft.stepsFrom ctx block txs index d)
      ((txs.zipIdx index).foldl (fun d p => d.applyTransaction ctx block p.1 p.2) d).registry := by
  induction txs generalizing index d with
  | nil => exact .refl _
  | cons tx txs ih => exact .cons (.refl _) (ih (index + 1) (d.applyTransaction ctx block tx index))

/-- A block passes through its transactions. -/
theorem passes_of_apply {a : Applied}
    (h : a.before.apply a.ctx a.block a.txs = .ok (a.after, outcome)) :
    Passes a.before a.steps a.after := by
  have hopened := retains_opened a.before a.ctx a.block
  have hclosed : Passes (a.before.draft a.ctx a.block a.txs).registry [] a.after :=
    .settle (retains_of_apply h)
  have hpassed : Passes (a.before.opened a.ctx a.block).registry a.steps
      (a.before.draft a.ctx a.block a.txs).registry :=
    passes_stepsFrom a.txs 0 (a.before.opened a.ctx a.block)
  have hall := (hpassed.of_retains hopened).append hclosed
  rwa [List.append_nil] at hall

/-! ## Plain runs -/

/-- The transactions of plain blocks, each with a fork and a list of transactions, that are applied
in a row. -/
def plainSteps : Registry → List (HardFork × List Transaction) → List AppliedTx
  | _, [] => []
  | r, (fork, txs) :: blocks =>
      let block := Block.plain (r.height + 1) fork
      r.steps (.bare (new 1)) block txs ++ plainSteps (r.settled (.bare (new 1)) block txs) blocks

/-- Plain blocks can be applied in a row, whatever their transactions are. -/
theorem SameButQuorums.exists_row (h : r.SameButQuorums r')
    (blocks : List (HardFork × List Transaction)) :
    ∃ row, Row r' row ∧ row.flatMap Applied.steps = plainSteps r blocks := by
  induction blocks generalizing r r' with
  | nil => exact ⟨[], .nil r', rfl⟩
  | cons first blocks ih =>
      obtain ⟨fork, txs⟩ := first
      have hheight : r'.height = r.height := by
        obtain ⟨quorums, rfl⟩ := h
        rfl
      have hsteps : r'.steps (.bare (new 1)) (.plain (r.height + 1) fork) txs =
          r.steps (.bare (new 1)) (.plain (r.height + 1) fork) txs := by
        obtain ⟨quorums, rfl⟩ := h
        rfl
      obtain ⟨next, outcome, happly, -⟩ := exists_apply_eq_ok (.bare (new 1)) txs
        (show r'.height + 1 = (Block.plain (r.height + 1) fork).height from
          congrArg (· + 1) hheight)
      have hnext : (r.settled (.bare (new 1)) (.plain (r.height + 1) fork) txs).SameButQuorums
          next := by
        rw [← h.settled_eq]
        exact sameButQuorums_of_apply happly
      obtain ⟨row, hrow, hrest⟩ := ih hnext
      let a : Applied := ⟨.bare (new 1), .plain (r.height + 1) fork, txs, r', next⟩
      refine ⟨a :: row, .cons (a := a) happly hrow, ?_⟩
      rw [List.flatMap_cons, hrest]
      exact congrArg (· ++ _) hsteps

end Registry

end StakeRegistry
