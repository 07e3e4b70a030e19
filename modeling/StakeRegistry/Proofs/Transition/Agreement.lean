import Mathlib.Data.List.Basic
import StakeRegistry.Proofs.History.Tiers
import StakeRegistry.Proofs.Transition.Step
import StakeRegistry.Proofs.Verification.Votes

/-!
# What a block reads of its surroundings

A block reads the rules, the suite, the entropy of its Pulse quorum, the registrations of one
lock period back, and the votes on the state changes that it carries. Contexts that agree in
these (`Context.Agrees`) give the same registry after it (`Registry.apply_congr`).

Of the past, votes read the obligations quorums of the last `voteLifetime` heights and nothing
else, so two views that recall the same quorums there (`HistoryView.Recalls`) carry the same
votes.
-/

set_option autoImplicit false

namespace StakeRegistry

/-! ## Votes -/

namespace HistoryView

/-- The obligations quorum that a view has on record for a height. -/
def obligations? (view : HistoryView) (height : Nat) : Option Quorum :=
  (view.state? height).bind (·.quorums.obligations)

/-- A view of the canonical chain that has these obligations quorums on record, for every
height that a vote in a block at `latest` may name. -/
structure Recalls (view : HistoryView) (quorums : Nat → Option Quorum) (latest : Nat) : Prop where
  canonical : view.alternatives = []
  quorum : ∀ height, height < latest → latest ≤ height + voteLifetime →
    view.obligations? height = quorums height

/-- Only quorums below a block count. -/
theorem Recalls.congr {view : HistoryView} {quorums quorums' : Nat → Option Quorum}
    {latest : Nat} (h : view.Recalls quorums latest)
    (hsame : ∀ height, height < latest → quorums' height = quorums height) :
    view.Recalls quorums' latest := by
  refine ⟨h.canonical, fun height hlow hlive => ?_⟩
  rw [h.quorum height hlow hlive, hsame height hlow]

theorem obligations?_of (head : Registry) (history : History) (height : Nat) :
    (HistoryView.of head history).obligations? height =
      if head.height = height then head.quorums.obligations
      else (history.at? height).bind (·.quorums.obligations) := by
  unfold obligations? state? of
  dsimp only
  split
  · rfl
  · rfl

/-- A registry without history recalls the quorums of a first registry, if no others are
asked for. -/
theorem recalls_of_empty {head : Registry} {history : History}
    {quorums : Nat → Option Quorum} (hrecent : history.recent = ∅)
    (harchive : history.archive = ∅) (hhead : quorums head.height = head.quorums.obligations)
    (hnone : ∀ height, height < head.height → quorums height = none) :
    (HistoryView.of head history).Recalls quorums (head.height + 1) := by
  refine ⟨rfl, fun height hlow _ => ?_⟩
  rw [obligations?_of]
  split
  · rename_i heq
    rw [← heq, hhead]
  · rw [hnone height (by omega), History.at?, hrecent, harchive]
    rfl

/-- The next block leaves the quorums of the old head and below it where they are found. -/
theorem obligations?_push {head next : Registry} {history : History} {height : Nat}
    (hheight : next.height = head.height + 1) (hlow : height ≤ head.height)
    (hlive : next.height ≤ height + voteLifetime) :
    (HistoryView.of next (history.push next.height head)).obligations? height =
      (HistoryView.of head history).obligations? height := by
  rw [obligations?_of, obligations?_of, if_neg (by omega)]
  by_cases heq : head.height = height
  · subst heq
    rw [if_pos rfl, History.at?_push_previous]
    rfl
  · -- The lifetime of votes is shorter than that of recent registries.
    have hkept : History.cullHeight next.height < height ∨ height = 0 := by
      unfold History.cullHeight recentBlocks
      have : 0 < voteLifetime := by decide
      omega
    rw [if_neg heq, History.at?_push history next.height head (Ne.symm heq) hkept]

/-- What a view recalls, and the quorum of a new head, it recalls with the old head in
history. -/
theorem recalls_push {head next : Registry} {history : History}
    {quorums : Nat → Option Quorum}
    (h : (HistoryView.of head history).Recalls quorums (head.height + 1))
    (hheight : next.height = head.height + 1)
    (hnext : quorums next.height = next.quorums.obligations) :
    (HistoryView.of next (history.push next.height head)).Recalls quorums (next.height + 1) := by
  refine ⟨rfl, fun height hlow hlive => ?_⟩
  by_cases heq : next.height = height
  · rw [obligations?_of, if_pos heq, ← heq, hnext]
  · rw [obligations?_push hheight (by omega) (by omega)]
    exact h.quorum height (by omega) (by omega)

end HistoryView

/-- Without other branches, votes are counted by the quorum on record and no other. -/
theorem votingQuorum?_eq {ctx : Context} (hcanonical : ctx.view.alternatives = [])
    (change : StateChange) (latest : Nat) :
    votingQuorum? ctx change latest = (ctx.view.obligations? change.height).filter fun q =>
      (verifyStateChange ctx.suite change latest q).isOk := by
  unfold votingQuorum? HistoryView.obligations?
  cases ctx.view.state? change.height with
  | none => rfl
  | some stored =>
      have hnone : ctx.view.alternativesAt change.height = [] := by
        rw [HistoryView.alternativesAt, hcanonical]
        rfl
      rw [hnone]
      dsimp only [Option.bind_some]
      -- Only the registry on record is asked.
      rw [List.findSome?_cons, List.findSome?_nil]
      cases stored.quorums.obligations.filter _ <;> rfl

/-- Views that recall the same quorums carry the same votes. -/
theorem votingQuorum?_congr {ctx ctx' : Context} {quorums quorums' : Nat → Option Quorum}
    {latest : Nat} (hsuite : ctx'.suite = ctx.suite) (h : ctx.view.Recalls quorums latest)
    (h' : ctx'.view.Recalls quorums' latest) {change : StateChange}
    (hsame : (quorums' change.height).filter
        (fun q => (verifyStateChange ctx.suite change latest q).isOk) =
      (quorums change.height).filter
        fun q => (verifyStateChange ctx.suite change latest q).isOk) :
    votingQuorum? ctx' change latest = votingQuorum? ctx change latest := by
  rw [votingQuorum?_eq h.canonical, votingQuorum?_eq h'.canonical, hsuite]
  by_cases hlive : change.height < latest ∧ latest ≤ change.height + voteLifetime
  · rw [h.quorum _ hlive.1 hlive.2, h'.quorum _ hlive.1 hlive.2]
    exact hsame
  · -- Outside their lifetime no quorum carries votes.
    have hnone : ∀ q? : Option Quorum, (q?.filter fun q =>
        (verifyStateChange ctx.suite change latest q).isOk) = none := by
      intro q?
      cases q? with
      | none => rfl
      | some q =>
          have hrefused : ¬ (verifyStateChange ctx.suite change latest q).isOk = true :=
            fun hok => hlive (verifyStateChange_isOk_iff.1 hok).inLifetime
          simp [Option.filter, hrefused]
    rw [hnone, hnone]

/-! ## Contexts that agree -/

/-- Two contexts that give a block the same answers to all it asks. -/
structure Context.Agrees (ctx ctx' : Context) (block : Block) (txs : List Transaction) :
    Prop where
  rules : ctx'.rules = ctx.rules
  suite : ctx'.suite = ctx.suite
  entropy : ∀ round, pulseEntropy ctx'.chain ctx'.suite block.prevHash round =
    pulseEntropy ctx.chain ctx.suite block.prevHash round
  /-- Registrations one lock period back are read at the first fork with nodes only. -/
  period : block.fork = HardFork.serviceNodes →
    registeredOnePeriodBack ctx' block.height = registeredOnePeriodBack ctx block.height
  votes : ∀ tx ∈ txs, tx.kind = .stateChange → ∀ change, tx.stateChange? = some change →
    votingQuorum? ctx' change block.height = votingQuorum? ctx change block.height

section Congruence

variable {ctx ctx' : Context} {block : Block} {txs : List Transaction}

theorem Draft.applyTransaction_congr (h : ctx.Agrees ctx' block txs) {tx : Transaction}
    (htx : tx ∈ txs) (index : Nat) (d : Draft) :
    d.applyTransaction ctx' block tx index = d.applyTransaction ctx block tx index := by
  obtain ⟨hrules, hsuite, -, -, hvotes⟩ := h
  obtain ⟨rules, suite, chain, view⟩ := ctx
  obtain ⟨rules', suite', chain', view'⟩ := ctx'
  dsimp only at hrules hsuite
  subst hrules hsuite
  unfold applyTransaction
  split
  · rfl
  -- Of all kinds only state changes read more than rules and suite.
  · cases hkind : tx.kind with
    | stateChange =>
        unfold applyStateChange
        cases hchange : tx.stateChange? with
        | none => rfl
        | some change =>
            dsimp only
            rw [hvotes tx htx hkind change hchange]
            rfl
    | keyImageUnlock => rfl
    | bridgeRegistration => rfl
    | bridgeLeave => rfl
    | bridgeExit => rfl
    | bridgeDeregister => rfl
    | standard => rfl
    | stake => rfl

theorem Draft.applyTransactions_congr (h : ctx.Agrees ctx' block txs) (d : Draft) :
    d.applyTransactions ctx' block txs = d.applyTransactions ctx block txs :=
  List.foldl_ext _ _ _ fun d p hp =>
    applyTransaction_congr h (List.fst_mem_of_mem_zipIdx hp) p.2 d

namespace Registry

theorem opened_congr (h : ctx.Agrees ctx' block txs) (r : Registry) :
    r.opened ctx' block = r.opened ctx block := by
  have hproducing : ∀ (r : Registry) (winner : PublicKey),
      r.quorumProducing ctx'.rules ctx'.suite ctx'.chain block winner =
        r.quorumProducing ctx.rules ctx.suite ctx.chain block winner := by
    intro r winner
    unfold quorumProducing
    dsimp only
    rw [h.rules, h.entropy]
  have hformed : ∀ (r : Registry) (winner : PublicKey),
      r.formPulseQuorum ctx' block winner = r.formPulseQuorum ctx block winner := by
    intro r winner
    unfold formPulseQuorum
    rw [hproducing]
  have hexpired : ∀ d : Draft, d.expireNodes ctx' block = d.expireNodes ctx block := by
    intro d
    unfold Draft.expireNodes expiring
    rw [h.rules]
    by_cases hfork : block.fork = HardFork.serviceNodes
    · rw [if_pos hfork, if_pos hfork, h.period hfork]
    · rw [if_neg hfork, if_neg hfork]
  unfold opened
  simp only [hformed, hexpired]

theorem draft_congr (h : ctx.Agrees ctx' block txs) (r : Registry) :
    r.draft ctx' block txs = r.draft ctx block txs := by
  rw [draft_eq, draft_eq, opened_congr h, Draft.applyTransactions_congr h]

/-- Contexts that agree give the same registry after a block. -/
theorem apply_congr (h : ctx.Agrees ctx' block txs) (r : Registry) :
    r.apply ctx' block txs = r.apply ctx block txs := by
  unfold apply
  rw [draft_congr h, h.rules]

end Registry

end Congruence

end StakeRegistry
