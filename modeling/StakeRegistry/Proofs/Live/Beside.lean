import StakeRegistry.Proofs.Live.Adding
import StakeRegistry.Proofs.Quorum.Ancestry
import StakeRegistry.Proofs.Transition.StateChanges

/-!
# Beside the canonical chain

A block of another branch applies to the registry of its parent, and votes are looked up in the
canonical past and on all other branches. A registry that follows the branch looks them up in
its own past. Where the votes are the branch's own (`OwnVotes`), both find the same quorum, and
one block keeps both evaluations abreast (`LiveRegistry.Abreast`). Main statements:

* `OwnVotes.votingQuorum?_eq`: votes of the branch's own quorums are counted as the branch counts
  them;
* `Abreast.apply_eq`: a block with such votes has the same effect on both sides;
* `Abreast.advance`: after it, both are abreast again.
-/

set_option autoImplicit false

namespace StakeRegistry

/-! ## Votes beside the canonical chain -/

/-- The registry counts when votes of a height are looked up. -/
def HistoryView.Counts (view : HistoryView) (height : Nat) (r : Registry) : Prop :=
  view.state? height = some r ∨ r ∈ view.alternativesAt height

/-- A quorum that carries votes belongs to a registry that counts. -/
theorem counts_of_votingQuorum? {ctx : Context} {change : StateChange} {latest : Nat} {q : Quorum}
    (h : votingQuorum? ctx change latest = some q) :
    ∃ r, ctx.view.Counts change.height r ∧ r.quorums.obligations = some q := by
  unfold votingQuorum? at h
  split at h
  · cases h
  · rename_i stored hstored
    obtain ⟨r, hr, hq⟩ := List.exists_of_findSome?_eq_some h
    refine ⟨r, ?_, (Option.filter_eq_some_iff.1 hq).1⟩
    rcases List.mem_cons.1 hr with rfl | hr
    · exact Or.inl hstored
    · exact Or.inr hr

/-- Votes are found if a registry that counts has the quorum that carries them, and there is a
canonical one at the height. -/
theorem votingQuorum?_ne_none {ctx : Context} {change : StateChange} {latest : Nat} {q : Quorum}
    {r : Registry} (hreached : (ctx.view.state? change.height).isSome = true)
    (hr : ctx.view.Counts change.height r) (hq : r.quorums.obligations = some q)
    (hcarried : change.CarriedBy ctx.suite latest q) :
    votingQuorum? ctx change latest ≠ none := by
  obtain ⟨stored, hstored⟩ := Option.isSome_iff_exists.1 hreached
  unfold votingQuorum?
  rw [hstored]
  dsimp only
  intro hnone
  have hmem : r ∈ stored :: ctx.view.alternativesAt change.height := by
    rcases hr with hr | hr
    · cases hstored.symm.trans hr
      exact List.mem_cons_self
    · exact List.mem_cons_of_mem _ hr
  have hrefused := List.findSome?_eq_none_iff.1 hnone r hmem
  rw [hq, Option.filter_some, if_pos (verifyStateChange_isOk_iff.2 hcarried)] at hrefused
  cases hrefused

/-- The canonical quorum is asked first, and other branches only if it does not carry the votes. -/
theorem votingQuorum?_of_canonical {ctx : Context} {change : StateChange} {latest : Nat}
    {q : Quorum} {r : Registry} (hr : ctx.view.state? change.height = some r)
    (hq : r.quorums.obligations = some q) (hcarried : change.CarriedBy ctx.suite latest q) :
    votingQuorum? ctx change latest = some q := by
  unfold votingQuorum?
  rw [hr]
  dsimp only
  rw [List.findSome?_cons, hq, Option.filter_some, if_pos (verifyStateChange_isOk_iff.2 hcarried)]

/-- The votes on a state change are those of one chain's own quorum: no other quorum that counts
carries them, and where the own one does, there is a canonical registry at the height. -/
structure OwnVotes (ctx : Context) (own : Option Quorum) (change : StateChange)
    (latest : Nat) : Prop where
  noOther : ∀ r q, ctx.view.Counts change.height r → r.quorums.obligations = some q →
    change.CarriedBy ctx.suite latest q → own = some q
  reached : ∀ q, own = some q → change.CarriedBy ctx.suite latest q →
    (ctx.view.state? change.height).isSome = true

/-- Such votes are counted as the chain itself counts them, if its quorum is on record. -/
theorem OwnVotes.votingQuorum?_eq {ctx : Context} {own : Option Quorum} {change : StateChange}
    {latest : Nat} (h : OwnVotes ctx own change latest)
    (hrecorded : ∀ q, own = some q → change.CarriedBy ctx.suite latest q →
      (ctx.view.state? change.height).isSome = true →
      ∃ r, ctx.view.Counts change.height r ∧ r.quorums.obligations = some q) :
    votingQuorum? ctx change latest =
      own.filter fun q => (verifyStateChange ctx.suite change latest q).isOk := by
  cases hfound : votingQuorum? ctx change latest with
  | some q =>
      obtain ⟨r, hr, hq⟩ := counts_of_votingQuorum? hfound
      have hcarried := carriedBy_of_votingQuorum? hfound
      rw [h.noOther r q hr hq hcarried, Option.filter_some,
        if_pos (verifyStateChange_isOk_iff.2 hcarried)]
  | none =>
      refine (Option.filter_eq_none_iff.2 fun q hq hok => ?_).symm
      have hcarried := verifyStateChange_isOk_iff.1 hok
      have hreached := h.reached q hq hcarried
      obtain ⟨r, hr, hobligations⟩ := hrecorded q hq hcarried hreached
      exact votingQuorum?_ne_none hreached hr hobligations hcarried hfound

/-! ## Offers -/

/-- A block that is offered as one of another branch, with its transactions: what surrounds the
registry that evaluates it beside the canonical chain, and what surrounds one that follows the
branch. -/
structure Offer where
  block : Block
  txs : List Transaction
  beside : Surroundings
  within : Surroundings

/-- Both surroundings agree in what is not a matter of the registry: the suite, the ancestors of
the block, and, at the first fork with nodes, the block one lock period back. -/
structure Offer.ReadsAlike (o : Offer) (rules : NetworkRules) : Prop where
  suite : o.within.suite = o.beside.suite
  ancestry : ∃ known, o.beside.chain.SharesAncestry o.within.chain known ∧ known o.block.prevHash
  blockBack : o.block.fork = HardFork.serviceNodes →
    o.within.chain.blockAt? (o.block.height - rules.stakingLockBlocks) =
      o.beside.chain.blockAt? (o.block.height - rules.stakingLockBlocks)
  transactionsBack : o.block.fork = HardFork.serviceNodes →
    ∀ b, o.beside.chain.blockAt? (o.block.height - rules.stakingLockBlocks) = some b →
      o.within.chain.transactionsOf b = o.beside.chain.transactionsOf b

theorem Offer.ReadsAlike.registeredOnePeriodBack_eq {o : Offer} (ctx ctx' : Context)
    (h : o.ReadsAlike ctx.rules) (hrules : ctx'.rules = ctx.rules)
    (hsuite : ctx'.suite = ctx.suite) (hchain : ctx.chain = o.beside.chain)
    (hchain' : ctx'.chain = o.within.chain) (hfork : o.block.fork = HardFork.serviceNodes) :
    registeredOnePeriodBack ctx' o.block.height = registeredOnePeriodBack ctx o.block.height := by
  unfold registeredOnePeriodBack
  rw [hrules, hsuite, hchain, hchain']
  dsimp only
  rw [h.blockBack hfork]
  split
  · rfl
  · cases hback : o.beside.chain.blockAt? (o.block.height - ctx.rules.stakingLockBlocks) with
    | none => rfl
    | some b =>
        dsimp only
        rw [h.transactionsBack hfork b hback]

namespace LiveRegistry

/-! ## Taking a block of another branch -/

/-- What the blocks on a registry of another branch see of the past. -/
def besideView (l : LiveRegistry) (tip : Registry) : HistoryView :=
  (HistoryView.of tip l.history).withAlternatives

/-- The registry with one more registry of another branch. -/
def withAlternative (l : LiveRegistry) (hash : Hash) (r : Registry) : LiveRegistry :=
  { l with
    history := { l.history with alternatives := l.history.alternatives.insert hash r } }

@[simp] theorem get?_withAlternative_self (l : LiveRegistry) (hash : Hash) (r : Registry) :
    (l.withAlternative hash r).history.alternatives.get? hash = some r :=
  SortedMap.get?_insert_self _ _ _

theorem get?_withAlternative_of_ne (l : LiveRegistry) {hash hash' : Hash} (r : Registry)
    (hne : hash' ≠ hash) :
    (l.withAlternative hash r).history.alternatives.get? hash' =
      l.history.alternatives.get? hash' :=
  SortedMap.get?_insert_of_ne _ _ hne

section Beside

variable {l : LiveRegistry} {s : Surroundings} {block : Block} {txs : List Transaction}
  {checkpoint : Option Checkpoint} {next tip : Registry}

/-- What a registry of another branch rests on: its block applies to the parent and verifies. -/
theorem branch_eq_ok_iff (hparent : l.parentOf? block = some tip)
    (honto : tip.blockHash = block.prevHash) :
    l.branch s block txs checkpoint = .ok next ↔
      ∃ outcome, tip.apply (l.context s (l.besideView tip)) block txs = .ok (next, outcome) ∧
        verifyBlock (l.context s (((HistoryView.of next l.history).withPrevious
          tip).withAlternatives)) block true checkpoint = .ok () := by
  unfold branch
  rw [hparent]
  dsimp only
  rw [if_neg (not_not_intro honto)]
  constructor
  · intro h
    obtain ⟨⟨head, outcome⟩, happly, h⟩ := bind_eq_ok_iff.1 h
    obtain ⟨⟨⟩, hverify, h⟩ := bind_eq_ok_iff.1 h
    cases h
    refine ⟨outcome, happly, ?_⟩
    generalize verifyBlock _ block true checkpoint = answer at hverify
    cases answer with
    | ok _ => rfl
    | error e => cases hverify
  · rintro ⟨outcome, happly, hverify⟩
    refine bind_eq_ok_iff.2 ⟨(next, outcome), happly, bind_eq_ok_iff.2 ⟨(), ?_, rfl⟩⟩
    rw [hverify]
    rfl

/-- What taking a new block of another branch comes to. -/
theorem addAltBlock_eq (hfork : HardFork.serviceNodes ≤ block.fork)
    (hunknown : l.history.alternatives.get? block.hash = none) :
    l.addAltBlock s block txs checkpoint =
      match l.branch s block txs checkpoint with
      | .error e => (.error e, l)
      | .ok next => (.ok (), l.withAlternative block.hash next) := by
  have hnew : ¬ (block.fork < HardFork.serviceNodes ∨
      l.history.alternatives.contains block.hash = true) := by
    rintro (hlow | hcontains)
    · exact HardFork.not_lt.2 hfork hlow
    · rw [SortedMap.contains, hunknown] at hcontains
      cases hcontains
  refine (if_neg hnew).trans ?_
  cases l.branch s block txs checkpoint with
  | error e => rfl
  | ok next => rfl

/-- A new block of another branch that is taken leaves its registry among those of other branches,
and nothing else. -/
theorem addAltBlock_eq_ok (hfork : HardFork.serviceNodes ≤ block.fork)
    (hunknown : l.history.alternatives.get? block.hash = none)
    (haccepted : (l.addAltBlock s block txs checkpoint).1 = .ok ()) :
    ∃ next, l.branch s block txs checkpoint = .ok next ∧
      (l.addAltBlock s block txs checkpoint).2 = l.withAlternative block.hash next := by
  rw [addAltBlock_eq hfork hunknown] at haccepted ⊢
  cases hbranch : l.branch s block txs checkpoint with
  | error e =>
      rw [hbranch] at haccepted
      cases haccepted
  | ok next => exact ⟨next, rfl, rfl⟩

end Beside

/-! ## Both evaluations abreast -/

/-- The registry is on record for a height, on the canonical chain or on another branch. -/
def OnFile (l : LiveRegistry) (height : Nat) (r : Registry) : Prop :=
  l.history.at? height = some r ∨
    r.height = height ∧ ∃ hash, l.history.alternatives.get? hash = some r

/-- The first registry has evaluated a branch up to its tip beside the canonical chain, the
second has followed the branch: its head is the tip, and the first has on record what the
second recalls, unless the canonical chain has nothing on record for the height. -/
structure Abreast (l m : LiveRegistry) (tip : Registry) : Prop where
  rules : m.rules = l.rules
  head : m.head = tip
  parent : ∀ block : Block, block.height = tip.height + 1 → block.prevHash = tip.blockHash →
    l.parentOf? block = some tip
  tipOnFile : l.OnFile tip.height tip
  recorded : ∀ height q, height < tip.height → tip.height < height + voteLifetime →
    (l.history.at? height).isSome = true → m.view.obligations? height = some q →
    ∃ r, l.OnFile height r ∧ r.quorums.obligations = some q

/-- The votes on the state changes of a block, looked up beside the canonical chain, are those of
the quorums that the registry which follows the branch has on record. -/
def Undisputed (l m : LiveRegistry) (o : Offer) : Prop :=
  ∀ tx ∈ o.txs, tx.kind = .stateChange → ∀ change, tx.stateChange? = some change →
    OwnVotes (l.context o.beside (l.besideView m.head)) (m.view.obligations? change.height) change
      o.block.height

section Step

variable {l m : LiveRegistry} {tip next : Registry} {o : Offer}

theorem state?_besideView (l : LiveRegistry) (tip : Registry) (height : Nat) :
    (l.besideView tip).state? height =
      if tip.height = height then some tip else l.history.at? height := by
  unfold besideView HistoryView.withAlternatives HistoryView.of HistoryView.state?
  dsimp only
  split <;> rfl

/-- What is on record counts when votes are looked up, except at the height of the parent. -/
theorem OnFile.counts {height : Nat} {r : Registry} (h : l.OnFile height r)
    (hne : tip.height ≠ height) : (l.besideView tip).Counts height r := by
  rcases h with hcanonical | ⟨hheight, hash, hbranch⟩
  · refine Or.inl ?_
    rw [state?_besideView, if_neg hne]
    exact hcanonical
  · refine Or.inr (List.mem_filter.2 ⟨?_, by simpa using hheight⟩)
    exact List.mem_map.2 ⟨(hash, r), SortedMap.get?_eq_some_iff.1 hbranch, rfl⟩

/-- What counts when votes are looked up is canonical or kept for another branch. -/
theorem eq_of_counts {height : Nat} {r : Registry} (h : (l.besideView tip).Counts height r) :
    (l.besideView tip).state? height = some r ∨
      ∃ hash, l.history.alternatives.get? hash = some r := by
  refine h.imp_right fun hr => ?_
  obtain ⟨⟨hash, _⟩, hmem, rfl⟩ := List.mem_map.1 (List.mem_filter.1 hr).1
  exact ⟨hash, SortedMap.get?_eq_some_iff.2 hmem⟩

/-- A quorum that the branch recalls belongs to a registry that counts, if there is a canonical
one at the height. -/
theorem Abreast.exists_counts (h : Abreast l m tip) {height : Nat} {q : Quorum}
    (hpast : height < tip.height + 1) (halive : tip.height + 1 ≤ height + voteLifetime)
    (hreached : ((l.besideView tip).state? height).isSome = true)
    (hq : m.view.obligations? height = some q) :
    ∃ r, (l.besideView tip).Counts height r ∧ r.quorums.obligations = some q := by
  by_cases htip : tip.height = height
  · refine ⟨tip, Or.inl ?_, ?_⟩
    · rw [state?_besideView, if_pos htip]
    · unfold view at hq
      rwa [HistoryView.obligations?_of, h.head, if_pos htip] at hq
  · rw [state?_besideView, if_neg htip] at hreached
    obtain ⟨r, hr, hobligations⟩ := h.recorded height q (by omega) (by omega) hreached hq
    exact ⟨r, hr.counts htip, hobligations⟩

/-- A block whose votes are its branch's own has the same effect on both sides. -/
theorem Abreast.apply_eq (h : Abreast l m tip) (habove : o.block.height = tip.height + 1)
    (hreads : o.ReadsAlike l.rules) (hvotes : Undisputed l m o) :
    tip.apply (m.context o.within m.view) o.block o.txs =
      tip.apply (l.context o.beside (l.besideView tip)) o.block o.txs := by
  refine Registry.apply_congr ⟨h.rules, hreads.suite, fun round => ?_, fun hfork => ?_,
    fun tx htx hkind change hchange => ?_⟩ tip
  · obtain ⟨known, hshares, hknown⟩ := hreads.ancestry
    show pulseEntropy o.within.chain o.within.suite o.block.prevHash round =
      pulseEntropy o.beside.chain o.beside.suite o.block.prevHash round
    rw [hreads.suite]
    exact hshares.pulseEntropy_eq _ hknown round
  · exact Offer.ReadsAlike.registeredOnePeriodBack_eq (l.context o.beside (l.besideView tip))
      (m.context o.within m.view) hreads h.rules hreads.suite rfl rfl hfork
  · have hown := hvotes tx htx hkind change hchange
    rw [h.head] at hown
    rw [StakeRegistry.votingQuorum?_eq rfl, hown.votingQuorum?_eq fun q hq hcarried hreached => ?_]
    · show (m.view.obligations? change.height).filter (fun q =>
          (verifyStateChange o.within.suite change o.block.height q).isOk) = _
      rw [hreads.suite]
      rfl
    · obtain ⟨hpast, halive⟩ := hcarried.inLifetime
      exact h.exists_counts (by omega) (by omega) hreached hq

/-- Taking a block of another branch keeps what is on record. -/
theorem OnFile.insert {height : Nat} {r : Registry} (h : l.OnFile height r) {hash : Hash}
    (hunknown : l.history.alternatives.get? hash = none) (next : Registry) :
    (l.withAlternative hash next).OnFile height r := by
  refine h.imp_right ?_
  rintro ⟨hheight, known, hknown⟩
  refine ⟨hheight, known, ?_⟩
  have hne : known ≠ hash := by
    rintro rfl
    rw [hunknown] at hknown
    cases hknown
  exact (l.get?_withAlternative_of_ne next hne).trans hknown

/-- With the registry of the branch's next block on both sides, they are abreast again. -/
theorem Abreast.insert (h : Abreast l m tip) (hheight : next.height = tip.height + 1)
    (hhash : next.blockHash = o.block.hash)
    (hunknown : l.history.alternatives.get? o.block.hash = none)
    (hcanonical : ∀ r, l.history.recent.get? next.height = some r → r.blockHash ≠ o.block.hash) :
    Abreast (l.withAlternative o.block.hash next)
      { m with head := next, history := m.history.push next.height m.head } next := by
  have htip := h.tipOnFile.insert hunknown next
  refine ⟨h.rules, rfl, fun block habove honto => ?_, Or.inr ⟨rfl, o.block.hash, ?_⟩,
    fun height q hlow halive hreached hq => ?_⟩
  · -- No canonical registry is taken for the parent, and the new one is found by its hash.
    have hnone : (l.history.recent.get? next.height).filter
        (fun r => r.blockHash == block.prevHash) = none := by
      refine Option.filter_eq_none_iff.2 fun r hr heq => hcanonical r hr ?_
      rw [← hhash, ← honto]
      simpa using heq
    unfold parentOf?
    rw [habove, Nat.add_sub_cancel, honto, hhash, get?_withAlternative_self, ← hhash, ← honto]
    show ((l.history.recent.get? next.height).filter
      fun r => r.blockHash == block.prevHash).or (some next) = some next
    rw [hnone, Option.none_or]
  · exact l.get?_withAlternative_self _ _
  · have hbefore : (HistoryView.of next (m.history.push next.height m.head)).obligations? height =
        m.view.obligations? height :=
      HistoryView.obligations?_push (by rw [h.head, hheight]) (by rw [h.head]; omega) (by omega)
    have hq := hbefore.symm.trans hq
    by_cases heq : height = tip.height
    · subst heq
      refine ⟨tip, htip, ?_⟩
      unfold view at hq
      rwa [HistoryView.obligations?_of, h.head, if_pos rfl] at hq
    · obtain ⟨r, hr, hobligations⟩ := h.recorded height q (by omega) (by omega) hreached hq
      exact ⟨r, hr.insert hunknown next, hobligations⟩

/-- A block of the branch that is taken beside the canonical chain moves the head of the registry
that follows the branch to the one that is kept for the block. -/
theorem Abreast.advance (h : Abreast l m tip) (habove : o.block.height = tip.height + 1)
    (honto : o.block.prevHash = tip.blockHash) (hreads : o.ReadsAlike l.rules)
    (hvotes : Undisputed l m o)
    (hunknown : l.history.alternatives.get? o.block.hash = none)
    (hcanonical : ∀ r, l.history.recent.get? o.block.height = some r →
      r.blockHash ≠ o.block.hash)
    (hbranch : l.branch o.beside o.block o.txs none = .ok next) :
    ∃ outcome m', m.advance o.within o.block o.txs none false = .ok (outcome, m') ∧
      Abreast (l.withAlternative o.block.hash next) m' next := by
  obtain ⟨outcome, happly, -⟩ :=
    (branch_eq_ok_iff (h.parent o.block habove honto) honto.symm).1 hbranch
  have hheight : next.height = o.block.height := Registry.height_of_apply happly
  refine ⟨outcome, { m with head := next, history := m.history.push o.block.height m.head },
    advance_eq_ok_iff.2 ⟨next, ?_, by simp, rfl⟩, ?_⟩
  · rw [h.head, h.apply_eq habove hreads hvotes]
    exact happly
  · rw [← hheight] at hcanonical ⊢
    exact h.insert (by rw [hheight, habove]) (Registry.blockHash_of_apply happly) hunknown
      hcanonical

end Step

end LiveRegistry

end StakeRegistry
