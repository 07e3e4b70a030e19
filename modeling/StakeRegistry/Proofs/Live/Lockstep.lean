import StakeRegistry.Proofs.Live.Adding
import StakeRegistry.Proofs.Transition.Agreement

/-!
# Registries in step

Two registries with one head answer blocks alike even if the second lacks the quorums of some
heights (`LiveRegistry.InStep`), until a block carries a state change that rests on one of them
(`Feeding.RestsOn`): of the past, a block reads nothing but the quorums that its state changes
name. Main statements:

* `InStep.addBlock`: a block that rests on no lost quorum keeps registries in step;
* `InStep.answers_eq`: so do any number of them, and all answers agree.
-/

set_option autoImplicit false

namespace StakeRegistry

/-- The quorums that are left when those of some heights are lost. -/
def withoutLost (lost : Nat → Prop) [DecidablePred lost] (quorums : Nat → Option Quorum)
    (height : Nat) : Option Quorum :=
  if lost height then none else quorums height

/-- A block that is fed to a registry, with its transactions and what surrounds the
registry then. -/
structure Feeding where
  surroundings : Surroundings
  block : Block
  txs : List Transaction

/-- The block carries a state change on a lost height whose votes the quorum of that height has
cast. -/
def Feeding.RestsOn (f : Feeding) (lost : Nat → Prop) (quorums : Nat → Option Quorum) : Prop :=
  ∃ tx ∈ f.txs, tx.kind = .stateChange ∧ ∃ change, tx.stateChange? = some change ∧
    lost change.height ∧ ∃ q, quorums change.height = some q ∧
      (verifyStateChange f.surroundings.suite change f.block.height q).isOk = true

/-- When no height is lost, no quorum is. -/
theorem withoutLost_never (quorums : Nat → Option Quorum) :
    withoutLost (fun _ => False) quorums = quorums :=
  funext fun _ => if_neg not_false

/-- Whoever lacks the quorums of the lost heights carries the same votes on a state change of a
block that rests on none of them. -/
theorem votingQuorum?_of_not_restsOn {f : Feeding} {lost : Nat → Prop} [DecidablePred lost]
    {quorums : Nat → Option Quorum} (hrests : ¬ f.RestsOn lost quorums) {ctx ctx' : Context}
    (hsuite : ctx.suite = f.surroundings.suite) (hsame : ctx'.suite = ctx.suite)
    (hrecalls : ctx.view.Recalls quorums f.block.height)
    (hlacks : ctx'.view.Recalls (withoutLost lost quorums) f.block.height) {tx : Transaction}
    (htx : tx ∈ f.txs) (hkind : tx.kind = .stateChange) {change : StateChange}
    (hchange : tx.stateChange? = some change) :
    votingQuorum? ctx' change f.block.height = votingQuorum? ctx change f.block.height := by
  refine votingQuorum?_congr hsame hrecalls hlacks ?_
  unfold withoutLost
  split
  · rename_i hlost
    cases hq : quorums change.height with
    | none => rfl
    | some q =>
        have hrefused : ¬ (verifyStateChange ctx.suite change f.block.height q).isOk = true := by
          rw [hsuite]
          exact fun hok => hrests ⟨tx, htx, hkind, change, hchange, hlost, q, hq, hok⟩
        show none = (some q).filter fun q =>
          (verifyStateChange ctx.suite change f.block.height q).isOk
        rw [Option.filter_some, if_neg hrefused]
  · rfl

/-! ## What the verification of a block reads -/

/-- Without a checkpoint, a block of the canonical chain is verified by the rules, the suite,
the chain and the Pulse quorum of its height. -/
theorem verifyBlock_congr {ctx ctx' : Context} {block : Block} (hrules : ctx'.rules = ctx.rules)
    (hsuite : ctx'.suite = ctx.suite) (hchain : ctx'.chain = ctx.chain)
    (hpulse : ctx'.view.quorum? .pulse block.height false =
      ctx.view.quorum? .pulse block.height false) :
    verifyBlock ctx' block false none = verifyBlock ctx block false none := by
  have hproduction : verifyProduction ctx' block false = verifyProduction ctx block false := by
    unfold verifyProduction verifyWithPulse
    rw [hrules, hsuite, hchain, hpulse]
    rfl
  unfold verifyBlock
  rw [hproduction]

theorem HistoryView.pulse_withPrevious (head previous : Registry) (history : History) :
    ((HistoryView.of head history).withPrevious previous).quorum? .pulse head.height false =
      head.quorums.pulse := by
  simp [quorum?, quorums?, state?, quorumHeight, withPrevious, of, Quorums.get]

namespace LiveRegistry

/-- Two registries with the same settings and the same head. Of the quorums that the first
recalls, the second lacks those of the lost heights. -/
structure InStep (lost : Nat → Prop) [DecidablePred lost] (quorums : Nat → Option Quorum)
    (l m : LiveRegistry) : Prop where
  settings : m.settings = l.settings
  head : m.head = l.head
  below : ∀ height, lost height → height < l.head.height
  recalls : l.view.Recalls quorums (l.head.height + 1)
  lacks : m.view.Recalls (withoutLost lost quorums) (l.head.height + 1)

section Lockstep

variable {lost : Nat → Prop} [DecidablePred lost] {quorums : Nat → Option Quorum}
  {l l' m m' : LiveRegistry} {f : Feeding}

theorem InStep.of_samePast (h : InStep lost quorums l m) (hl : l.SamePast l')
    (hm : m.SamePast m') : InStep lost quorums l' m' := by
  refine ⟨?_, ?_, ?_, ?_, ?_⟩
  · rw [hl.settings, hm.settings, h.settings]
  · rw [hl.head, hm.head, h.head]
  · rw [hl.head]
    exact h.below
  · rw [hl.view, hl.head]
    exact h.recalls
  · rw [hm.view, hl.head]
    exact h.lacks

/-- A block that rests on no lost quorum has the same effect on both heads. -/
theorem InStep.apply_eq (h : InStep lost quorums l m) (hrests : ¬ f.RestsOn lost quorums) :
    m.head.apply (m.context f.surroundings m.view) f.block f.txs =
      l.head.apply (l.context f.surroundings l.view) f.block f.txs := by
  rw [h.head]
  by_cases hheight : l.head.height + 1 = f.block.height
  · have hrecalls := h.recalls
    have hlacks := h.lacks
    rw [hheight] at hrecalls hlacks
    have hrules : m.rules = l.rules := by
      unfold rules
      rw [h.settings]
    have hsuite : (m.context f.surroundings m.view).suite =
        (l.context f.surroundings l.view).suite := rfl
    have hagrees : (l.context f.surroundings l.view).Agrees (m.context f.surroundings m.view)
        f.block f.txs := by
      refine ⟨hrules, hsuite, fun _ => rfl, fun _ => ?_, fun tx htx hkind change hchange => ?_⟩
      · unfold registeredOnePeriodBack context
        rw [hrules]
      · exact votingQuorum?_of_not_restsOn hrests rfl hsuite hrecalls hlacks htx hkind hchange
    exact Registry.apply_congr hagrees l.head
  · -- Out of turn, nothing of the surroundings is read.
    unfold Registry.apply
    rw [if_pos hheight, if_pos hheight]

/-- A new head and its history keep registries in step. -/
theorem InStep.push (h : InStep lost quorums l m) {head : Registry}
    (hheight : head.height = l.head.height + 1) :
    InStep lost (fun height => if height = head.height then head.quorums.obligations
        else quorums height)
      { l with head := head, history := l.history.push head.height l.head }
      { m with head := head, history := m.history.push head.height m.head } := by
  have hbelow : ∀ height, lost height → height < head.height := by
    intro height hlost
    have := h.below height hlost
    omega
  refine ⟨h.settings, rfl, hbelow, ?_, ?_⟩
  · refine HistoryView.recalls_push (h.recalls.congr fun height hlow => ?_) hheight (if_pos rfl)
    rw [if_neg (by omega)]
  · have hlacks := h.lacks
    rw [← h.head] at hlacks hheight
    refine HistoryView.recalls_push (hlacks.congr fun height hlow => ?_) hheight ?_
    · unfold withoutLost
      dsimp only
      rw [if_neg (show ¬ height = head.height by omega)]
    -- A new head lies above everything lost.
    · have hkept : ¬ lost head.height := fun hlost => Nat.lt_irrefl _ (hbelow _ hlost)
      unfold withoutLost
      dsimp only
      rw [if_neg hkept, if_pos rfl]

/-- The new heads are verified alike: their Pulse quorum is their own. -/
theorem InStep.verifyBlock_eq (h : InStep lost quorums l m) {head : Registry}
    (hheight : head.height = f.block.height) :
    verifyBlock (m.context f.surroundings
        ((HistoryView.of head m.history).withPrevious m.head)) f.block false none =
      verifyBlock (l.context f.surroundings
        ((HistoryView.of head l.history).withPrevious l.head)) f.block false none := by
  refine verifyBlock_congr ?_ rfl rfl ?_
  · show m.settings.rules = l.settings.rules
    rw [h.settings]
  · unfold context
    rw [← hheight, HistoryView.pulse_withPrevious, HistoryView.pulse_withPrevious]

/-- Registries in step both refuse a block, for the same reason, or both move on to the same
head. -/
theorem InStep.advance (h : InStep lost quorums l m) (hrests : ¬ f.RestsOn lost quorums) :
    (∃ e, l.advance f.surroundings f.block f.txs none true = .error e ∧
      m.advance f.surroundings f.block f.txs none true = .error e) ∨
    ∃ outcome next next', l.advance f.surroundings f.block f.txs none true = .ok (outcome, next) ∧
      m.advance f.surroundings f.block f.txs none true = .ok (outcome, next') ∧
      ∃ quorums', (∀ height, lost height → quorums' height = quorums height) ∧
        InStep lost quorums' next next' := by
  rw [advance_verified_eq, advance_verified_eq, h.apply_eq hrests]
  cases happly : l.head.apply (l.context f.surroundings l.view) f.block f.txs with
  | error e => exact Or.inl ⟨e, rfl, rfl⟩
  | ok p =>
      obtain ⟨head, outcome⟩ := p
      have hblock : head.height = f.block.height := Registry.height_of_apply happly
      have hbefore := Registry.height_before_apply happly
      dsimp only
      rw [h.verifyBlock_eq hblock]
      cases verifyBlock (l.context f.surroundings
          ((HistoryView.of head l.history).withPrevious l.head)) f.block false none with
      | error e => exact Or.inl ⟨.block e, rfl, rfl⟩
      | ok _ =>
          have hheight : head.height = l.head.height + 1 := by omega
          have hpushed := h.push hheight
          rw [hblock] at hpushed
          refine Or.inr ⟨outcome, _, _, rfl, rfl, _, fun height hlost => ?_, hpushed⟩
          have := h.below height hlost
          exact if_neg (by omega)

/-- A block that rests on no lost quorum gets the same answer from registries in step, and
leaves them in step. -/
theorem InStep.addBlock (h : InStep lost quorums l m) (hrests : ¬ f.RestsOn lost quorums) :
    (m.addBlock f.surroundings f.block f.txs none).1 =
      (l.addBlock f.surroundings f.block f.txs none).1 ∧
    ∃ quorums', (∀ height, lost height → quorums' height = quorums height) ∧
      InStep lost quorums' (l.addBlock f.surroundings f.block f.txs none).2
        (m.addBlock f.surroundings f.block f.txs none).2 := by
  rw [addBlock_eq, addBlock_eq]
  by_cases hfork : f.block.fork < HardFork.serviceNodes
  · rw [if_pos hfork, if_pos hfork]
    exact ⟨rfl, quorums, fun _ _ => rfl, h⟩
  · rw [if_neg hfork, if_neg hfork]
    obtain ⟨e, hl, hm⟩ | ⟨outcome, next, next', hl, hm, quorums', hsame, hnext⟩ :=
      h.advance hrests
    · rw [hl, hm]
      exact ⟨rfl, quorums, fun _ _ => rfl, h⟩
    · rw [hl, hm]
      refine ⟨rfl, quorums', hsame, hnext.of_samePast ?_ ?_⟩
      · exact .afterBlock _ _ _ _
      · exact .afterBlock _ _ _ _

/-! ## Whole runs -/

/-- What a registry answers to blocks that are fed to it one after the other, without
checkpoints, and its head after each. -/
def answers (l : LiveRegistry) : List Feeding → List (Except RegistryError Unit × Registry)
  | [] => []
  | f :: rest =>
      let (answer, next) := l.addBlock f.surroundings f.block f.txs none
      (answer, next.head) :: next.answers rest

/-- Registries in step answer alike as long as no block rests on a lost quorum. -/
theorem InStep.answers_eq (h : InStep lost quorums l m) (feedings : List Feeding)
    (hrests : ∀ f ∈ feedings, ¬ f.RestsOn lost quorums) :
    m.answers feedings = l.answers feedings := by
  -- Over the blocks: what is lost stays the same, while new quorums come to be recalled.
  induction feedings generalizing quorums l m with
  | nil => rfl
  | cons f rest ih =>
      obtain ⟨hanswer, quorums', hsame, hnext⟩ := h.addBlock (hrests f (by simp))
      have hlater : ∀ f ∈ rest, ¬ f.RestsOn lost quorums' := by
        rintro f hf ⟨tx, htx, hkind, change, hchange, hlost, q, hq, hok⟩
        rw [hsame change.height hlost] at hq
        exact hrests f (by simp [hf]) ⟨tx, htx, hkind, change, hchange, hlost, q, hq, hok⟩
      have hrest := ih hnext hlater
      unfold answers
      dsimp only
      rw [hanswer, hnext.head, hrest]

end Lockstep

end LiveRegistry

end StakeRegistry
