import Mathlib.Data.List.Basic
import StakeRegistry.Proofs.Live.Branching

/-!
# The order of other branches

The votes on a state change in a block of another branch are looked up in the canonical past and,
where that does not carry them, on the other branches, one after the other. The first quorum that
carries them tells which node they are about, for votes name a node by its position only. So the
order in which other branches are tried (`LiveRegistry.branchTrying`) may decide which node is
changed. Main statements:

* `namesOneNode_iff`: every order finds the same node exactly if all quorums that may decide have
  the same node at the position;
* `LiveRegistry.addAltBlock_unordered`: then the order does not matter to a block; else each of the
  nodes is removed in some order.
-/

set_option autoImplicit false

namespace StakeRegistry

/-! ## Votes -/

/-- The context of a block for which the registries of other branches are tried in some order. -/
def Context.trying (ctx : Context) (order : List Registry) : Context :=
  { ctx with view := { ctx.view with alternatives := order } }

/-- The quorum that a registry keeps for tests of other nodes carries a state change. -/
def Registry.Carries (r : Registry) (suite : CryptoSuite) (change : StateChange) (latest : Nat)
    (q : Quorum) : Prop :=
  r.quorums.obligations = some q ∧ change.CarriedBy suite latest q

/-- The votes on a state change may be about the node: it has the position in a quorum of another
branch that carries them, and the canonical quorum of the height does not. -/
def Contends (ctx : Context) (change : StateChange) (latest : Nat) (key : PublicKey) : Prop :=
  ∃ stored, ctx.view.state? change.height = some stored ∧
    (∀ q, ¬ stored.Carries ctx.suite change latest q) ∧
      ∃ r ∈ ctx.view.alternativesAt change.height, ∃ q, r.Carries ctx.suite change latest q ∧
        q.workers[change.index]? = some key

/-- The votes on a state change are about one node, in whatever order other branches are tried. -/
def NamesOneNode (ctx : Context) (change : StateChange) (latest : Nat) : Prop :=
  ∀ key key', Contends ctx change latest key → Contends ctx change latest key' → key = key'

section Orders

variable {ctx : Context} {change : StateChange} {latest : Nat} {order : List Registry}
  {stored r : Registry} {q : Quorum}

/-- The quorum that is found is the canonical one, or one of another branch if that does not carry
the votes. -/
theorem carries_of_votingQuorum? (h : votingQuorum? ctx change latest = some q) :
    ∃ stored, ctx.view.state? change.height = some stored ∧
      (stored.Carries ctx.suite change latest q ∨
        (∀ q', ¬ stored.Carries ctx.suite change latest q') ∧
          ∃ r ∈ ctx.view.alternativesAt change.height, r.Carries ctx.suite change latest q) := by
  have hcarries : ∀ r : Registry, (r.quorums.obligations.filter fun q =>
      (verifyStateChange ctx.suite change latest q).isOk) = some q →
      r.Carries ctx.suite change latest q := fun r hr =>
    (Option.filter_eq_some_iff.1 hr).imp_right verifyStateChange_isOk_iff.1
  unfold votingQuorum? at h
  split at h
  · cases h
  · rename_i stored hstored
    refine ⟨stored, hstored, ?_⟩
    rw [List.findSome?_cons] at h
    split at h
    · cases h
      exact .inl (hcarries stored ‹_›)
    · rename_i hrefused
      obtain ⟨r, hr, hq⟩ := List.exists_of_findSome?_eq_some h
      refine .inr ⟨fun q' hq' => ?_, r, hr, hcarries r hq⟩
      exact Option.filter_eq_none_iff.1 hrefused q' hq'.1 (verifyStateChange_isOk_iff.2 hq'.2)

theorem votingQuorum?_trying (hstored : ctx.view.state? change.height = some stored) :
    votingQuorum? (ctx.trying order) change latest =
      (stored :: order.filter fun r => r.height == change.height).findSome? fun r =>
        r.quorums.obligations.filter fun q =>
          (verifyStateChange ctx.suite change latest q).isOk := by
  have htried : (ctx.trying order).view.state? change.height = some stored := hstored
  unfold votingQuorum?
  rw [htried]
  rfl

/-- A registry of another branch that is tried first decides, if the canonical one does not. -/
theorem votingQuorum?_of_first {rest : List Registry}
    (hstored : ctx.view.state? change.height = some stored)
    (hrefused : ∀ q, ¬ stored.Carries ctx.suite change latest q)
    (hheight : r.height = change.height) (hcarries : r.Carries ctx.suite change latest q) :
    votingQuorum? (ctx.trying (r :: rest)) change latest = some q := by
  have hnone : (stored.quorums.obligations.filter fun q =>
      (verifyStateChange ctx.suite change latest q).isOk) = none :=
    Option.filter_eq_none_iff.2 fun q hq hok => hrefused q ⟨hq, verifyStateChange_isOk_iff.1 hok⟩
  have hfirst : (r :: rest).filter (fun r => r.height == change.height) =
      r :: rest.filter fun r => r.height == change.height :=
    List.filter_cons_of_pos (beq_iff_eq.2 hheight)
  rw [votingQuorum?_trying hstored, List.findSome?_cons, hnone, hfirst]
  dsimp only
  rw [List.findSome?_cons, hcarries.1, Option.filter_some,
    if_pos (verifyStateChange_isOk_iff.2 hcarries.2)]

theorem counts_trying (hperm : order.Perm ctx.view.alternatives) {height : Nat} :
    (ctx.trying order).view.Counts height r ↔ ctx.view.Counts height r := by
  refine or_congr Iff.rfl ?_
  exact (hperm.filter fun r => r.height == height).mem_iff

/-- Where a quorum is found in one order, one is found in every order. -/
theorem votingQuorum?_trying_ne_none (hperm : order.Perm ctx.view.alternatives)
    (h : votingQuorum? ctx change latest = some q) :
    votingQuorum? (ctx.trying order) change latest ≠ none := by
  obtain ⟨stored, hstored, -⟩ := carries_of_votingQuorum? h
  obtain ⟨r, hr, hquorum⟩ := counts_of_votingQuorum? h
  have hcarried := carriedBy_of_votingQuorum? h
  refine votingQuorum?_ne_none ?_ ((counts_trying hperm).2 hr) hquorum hcarried
  exact Option.isSome_iff_exists.2 ⟨stored, hstored⟩

/-- Two quorums that are found in two orders are one, or each has a node that contends. -/
theorem eq_or_contends_of_votingQuorum? {q' : Quorum} (hperm : order.Perm ctx.view.alternatives)
    (htried : votingQuorum? (ctx.trying order) change latest = some q')
    (hfound : votingQuorum? ctx change latest = some q) :
    q' = q ∨ ∃ key key', Contends ctx change latest key ∧ Contends ctx change latest key' ∧
      q.workers[change.index]? = some key ∧ q'.workers[change.index]? = some key' := by
  obtain ⟨stored, hstored, htried⟩ := carries_of_votingQuorum? htried
  obtain ⟨stored', hstored', hfound⟩ := carries_of_votingQuorum? hfound
  cases hstored.symm.trans hstored'
  -- The canonical quorum decides in both orders or in none.
  rcases htried with hq' | ⟨hrefused, r', hr', hq'⟩
  · rcases hfound with hq | ⟨hrefused, -⟩
    · exact .inl (Option.some.inj (hq'.1.symm.trans hq.1))
    · exact absurd hq' (hrefused q')
  · rcases hfound with hq | ⟨-, r, hr, hq⟩
    · exact absurd hq (hrefused q)
    · have hr' : r' ∈ ctx.view.alternativesAt change.height :=
        (hperm.filter fun r => r.height == change.height).mem_iff.1 hr'
      have hkey := List.getElem?_eq_getElem hq.2.onWorker
      have hkey' := List.getElem?_eq_getElem hq'.2.onWorker
      exact .inr ⟨_, _, ⟨stored, hstored, hrefused, r, hr, q, hq, hkey⟩,
        ⟨stored, hstored, hrefused, r', hr', q', hq', hkey'⟩, hkey, hkey'⟩

/-- Votes about one node are about the same node in every order. -/
theorem NamesOneNode.votedNode?_trying (h : NamesOneNode ctx change latest)
    (hperm : order.Perm ctx.view.alternatives) :
    votedNode? (ctx.trying order) change latest = votedNode? ctx change latest := by
  unfold votedNode?
  cases htried : votingQuorum? (ctx.trying order) change latest with
  | none =>
      have hfound : votingQuorum? ctx change latest = none :=
        Option.eq_none_iff_forall_ne_some.2 fun q hq => votingQuorum?_trying_ne_none hperm hq htried
      rw [hfound]
  | some q' =>
      have hback : votingQuorum? ctx change latest ≠ none :=
        @votingQuorum?_trying_ne_none (ctx.trying order) _ _ ctx.view.alternatives q' hperm.symm
          htried
      obtain ⟨q, hfound⟩ := Option.ne_none_iff_exists'.1 hback
      rw [hfound]
      rcases eq_or_contends_of_votingQuorum? hperm htried hfound with
        rfl | ⟨key, key', hcontends, hcontends', hkey, hkey'⟩
      · rfl
      · show q'.workers[change.index]? = q.workers[change.index]?
        rw [hkey, hkey', h key key' hcontends hcontends']

/-- Every node that contends is the one that the votes are about, in some order. -/
theorem Contends.exists_order {key : PublicKey} (h : Contends ctx change latest key) :
    ∃ order, order.Perm ctx.view.alternatives ∧
      votedNode? (ctx.trying order) change latest = some key := by
  obtain ⟨stored, hstored, hrefused, r, hr, q, hq, hkey⟩ := h
  obtain ⟨hmem, hheight⟩ := List.mem_filter.1 hr
  refine ⟨r :: ctx.view.alternatives.erase r, (List.perm_cons_erase hmem).symm, ?_⟩
  unfold votedNode?
  rw [votingQuorum?_of_first hstored hrefused (beq_iff_eq.1 hheight) hq]
  exact hkey

/-- Every order finds the same node exactly if the votes are about one node. -/
theorem namesOneNode_iff : NamesOneNode ctx change latest ↔
    ∀ order, order.Perm ctx.view.alternatives →
      votedNode? (ctx.trying order) change latest = votedNode? ctx change latest := by
  refine ⟨fun h order hperm => h.votedNode?_trying hperm, fun hsame key key' h h' => ?_⟩
  obtain ⟨order, hperm, hkey⟩ := h.exists_order
  obtain ⟨order', hperm', hkey'⟩ := h'.exists_order
  rw [hsame order hperm] at hkey
  rw [hsame order' hperm', hkey] at hkey'
  exact Option.some.inj hkey'

end Orders

/-! ## Blocks -/

section Blocks

variable {ctx : Context} {block : Block} {order : List Registry}

/-- Only state changes look at other branches. -/
theorem Draft.applyTransaction_trying {tx : Transaction}
    (hsame : tx.kind = .stateChange → ∀ change, tx.stateChange? = some change →
      votedNode? (ctx.trying order) change block.height = votedNode? ctx change block.height)
    (index : Nat) (d : Draft) :
    d.applyTransaction (ctx.trying order) block tx index = d.applyTransaction ctx block tx index := by
  by_cases hkind : tx.kind = .stateChange
  · rw [applyTransaction_of_stateChange hkind, applyTransaction_of_stateChange hkind]
    cases hcarries : tx.stateChange? with
    | none =>
        unfold applyStateChange
        rw [hcarries]
    | some change =>
        rw [applyStateChange_eq hcarries, applyStateChange_eq hcarries, hsame hkind change hcarries]
        rfl
  · have hagrees : ctx.Agrees (ctx.trying order) block [tx] := by
      refine ⟨rfl, rfl, fun _ => rfl, fun _ => rfl, fun tx' htx' hkind' => ?_⟩
      rw [List.mem_singleton.1 htx'] at hkind'
      exact absurd hkind' hkind
    exact applyTransaction_congr hagrees (List.mem_singleton.2 rfl) index d

/-- The votes on each state change in some transactions are about one node. -/
def NamesOneNodeEach (ctx : Context) (block : Block) (txs : List Transaction) : Prop :=
  ∀ tx ∈ txs, tx.kind = .stateChange → ∀ change, tx.stateChange? = some change →
    NamesOneNode ctx change block.height

variable {txs : List Transaction}

/-- A block whose votes are about one node each leaves the same draft in every order. -/
theorem Registry.draft_trying (heach : NamesOneNodeEach ctx block txs)
    (hperm : order.Perm ctx.view.alternatives) (r : Registry) :
    r.draft (ctx.trying order) block txs = r.draft ctx block txs :=
  List.foldl_ext _ _ _ fun d p hp =>
    Draft.applyTransaction_trying (fun hkind change hchange =>
      (heach p.1 (List.fst_mem_of_mem_zipIdx hp) hkind change hchange).votedNode?_trying hperm) p.2 d

theorem Registry.apply_trying (heach : NamesOneNodeEach ctx block txs)
    (hperm : order.Perm ctx.view.alternatives) (r : Registry) :
    r.apply (ctx.trying order) block txs = r.apply ctx block txs := by
  unfold apply
  rw [r.draft_trying heach hperm]
  rfl

end Blocks

namespace LiveRegistry

/-- The registry after a block of another branch and what it brings about, with the registries of
other branches tried in some order. -/
def branchTrying (l : LiveRegistry) (s : Surroundings) (block : Block) (txs : List Transaction)
    (checkpoint : Option Checkpoint) (order : List Registry) :
    Except RegistryError (Registry × Outcome) :=
  match l.parentOf? block with
  | none => .error (.missingAltParent block.hash)
  | some parent =>
      if parent.blockHash ≠ block.prevHash then
        .error (.fault (.unexpectedStateHash parent.blockHash block.prevHash))
      else do
        let (next, outcome) ←
          parent.apply ((l.context s (l.besideView parent)).trying order) block txs
        let view := ((HistoryView.of next l.history).withPrevious parent).withAlternatives
        (verifyBlock ((l.context s view).trying order) block true checkpoint).mapError
          RegistryError.block
        return (next, outcome)

/-- Takes a block of another branch, with the registries of other branches tried in some order. -/
def addAltBlockTrying (l : LiveRegistry) (s : Surroundings) (block : Block)
    (txs : List Transaction) (checkpoint : Option Checkpoint) (order : List Registry) :
    LiveResult RegistryError Unit :=
  if block.fork < HardFork.serviceNodes ∨ l.history.alternatives.contains block.hash then
    (.ok (), l)
  else match l.branchTrying s block txs checkpoint order with
  | .error e => (.error e, l)
  | .ok (next, _) => (.ok (), l.withAlternative block.hash next)

section Orders

variable {l : LiveRegistry} {s : Surroundings} {block : Block} {txs : List Transaction}
  {checkpoint : Option Checkpoint} {order : List Registry} {parent next : Registry}
  {outcome : Outcome}

/-- Other branches are tried in the order in which they are kept. -/
theorem branch_eq_branchTrying (l : LiveRegistry) (s : Surroundings) (block : Block)
    (txs : List Transaction) (checkpoint : Option Checkpoint) :
    l.branch s block txs checkpoint =
      (·.1) <$> l.branchTrying s block txs checkpoint l.history.alternatives.values := by
  unfold branch branchTrying
  cases l.parentOf? block with
  | none => rfl
  | some parent =>
      dsimp only
      split
      · rfl
      · simp only [map_bind, map_pure]
        rfl

theorem addAltBlockTrying_values (l : LiveRegistry) (s : Surroundings) (block : Block)
    (txs : List Transaction) (checkpoint : Option Checkpoint) :
    l.addAltBlockTrying s block txs checkpoint l.history.alternatives.values =
      l.addAltBlock s block txs checkpoint := by
  unfold addAltBlockTrying addAltBlock
  rw [branch_eq_branchTrying]
  split
  · rfl
  · cases l.branchTrying s block txs checkpoint l.history.alternatives.values with
    | error e => rfl
    | ok taken => rfl

/-- What a registry of another branch rests on, in some order. -/
theorem apply_of_branchTrying (hparent : l.parentOf? block = some parent)
    (h : l.branchTrying s block txs checkpoint order = .ok (next, outcome)) :
    parent.apply ((l.context s (l.besideView parent)).trying order) block txs =
      .ok (next, outcome) := by
  unfold branchTrying at h
  rw [hparent] at h
  dsimp only at h
  split at h
  · cases h
  · obtain ⟨taken, happly, h⟩ := bind_eq_ok_iff.1 h
    obtain ⟨⟨⟩, -, h⟩ := bind_eq_ok_iff.1 h
    cases h
    exact happly

/-- Where all votes are about one node each, every order gives the same registry. -/
theorem branchTrying_eq_of_namesOneNodeEach
    (heach : ∀ parent, l.parentOf? block = some parent →
      NamesOneNodeEach (l.context s (l.besideView parent)) block txs)
    (hperm : order.Perm l.history.alternatives.values) :
    l.branchTrying s block txs checkpoint order =
      l.branchTrying s block txs checkpoint l.history.alternatives.values := by
  unfold branchTrying
  cases hparent : l.parentOf? block with
  | none => rfl
  | some parent =>
      have hsame : ∀ order : List Registry, order.Perm l.history.alternatives.values →
          parent.apply ((l.context s (l.besideView parent)).trying order) block txs =
            parent.apply (l.context s (l.besideView parent)) block txs := fun order hperm =>
        parent.apply_trying (heach parent hparent) hperm
      dsimp only
      rw [hsame order hperm, hsame _ (List.Perm.refl _)]
      rfl

/-- A mined block of another branch is taken, whatever the order. -/
theorem exists_branchTrying_eq_ok (hparent : l.parentOf? block = some parent)
    (honto : parent.blockHash = block.prevHash) (habove : parent.height + 1 = block.height)
    (hmined : block.IsMined) (hknown : (s.chain.blockByHash? block.prevHash).isSome = true) :
    ∃ next outcome, l.branchTrying s block txs none order = .ok (next, outcome) := by
  obtain ⟨next, outcome, happly, -⟩ := Registry.exists_apply_eq_ok
    ((l.context s (l.besideView parent)).trying order) txs habove
  have hverified : ∀ view, verifyBlock ((l.context s view).trying order) block true none =
      .ok () := fun view => verifyBlock_of_mined hmined true hknown (by simp)
  refine ⟨next, outcome, ?_⟩
  unfold branchTrying
  rw [hparent]
  dsimp only
  rw [if_neg (not_not_intro honto), happly]
  refine bind_eq_ok_iff.2 ⟨(next, outcome), rfl, bind_eq_ok_iff.2 ⟨(), ?_, rfl⟩⟩
  rw [hverified]
  rfl

end Orders

end LiveRegistry

/-! ## Two other branches -/

/-- The end of another branch, with a quorum of seven validators for tests of one node. -/
def Registry.testing (worker : Nat) : Registry :=
  { Registry.new 3 with
    quorums.obligations := some ⟨(List.range stateChangeVotes).map .writing, [.writing worker]⟩ }

/-- Eleven nodes, after a block on top of a registry without quorums. -/
def Registry.untested : Registry := (Registry.new 3).settled .trusting (.plain 4 .v21) elevenNodes

namespace LiveRegistry

/-- Two canonical registries, and the ends of two other branches that test one node each. -/
def divided (first second : Nat) : LiveRegistry :=
  { start .bridged ∅ [] with
    history.recent := ((∅ : SortedMap Nat Registry).insert 3 (.new 3)).insert 4 .untested
    history.alternatives :=
      ((∅ : SortedMap Hash Registry).insert (.writing 103) (.testing first)).insert (.writing 203)
        (.testing second) }

/-- What a block on the last canonical registry reads. -/
def dividedContext (first second : Nat) : Context :=
  (divided first second).context .trusting ((divided first second).besideView .untested)

theorem parentOf?_divided (first second : Nat) :
    (divided first second).parentOf? (.forked 5 4) = some .untested := rfl

theorem contends_divided_iff {first second : Nat} {key : PublicKey} :
    Contends (dividedContext first second) (.removal 3) 5 key ↔
      key = .writing first ∨ key = .writing second := by
  have hstate : (dividedContext first second).view.state? 3 = some (.new 3) := rfl
  have hbranches : (dividedContext first second).view.alternativesAt 3 =
      [.testing first, .testing second] := rfl
  have hcarries : ∀ worker, (Registry.testing worker).Carries .trusting (.removal 3) 5
      ⟨(List.range stateChangeVotes).map .writing, [.writing worker]⟩ := fun worker =>
    ⟨rfl, carriedBy_removal (by simp) (by simp) (by decide) (by decide)⟩
  constructor
  · rintro ⟨stored, -, -, r, hr, q, ⟨hq, -⟩, hkey⟩
    have hr : r ∈ [Registry.testing first, .testing second] := hbranches ▸ hr
    rcases List.mem_pair.1 hr with rfl | rfl
    · cases hq
      exact .inl (Option.some.inj hkey).symm
    · cases hq
      exact .inr (Option.some.inj hkey).symm
  · have hcontends : ∀ worker, Registry.testing worker ∈ [Registry.testing first, .testing second] →
        Contends (dividedContext first second) (.removal 3) 5 (.writing worker) :=
      fun worker hmem => ⟨.new 3, hstate, fun q hq => (nomatch hq.1), .testing worker,
        hbranches ▸ hmem, _, hcarries worker, rfl⟩
    rintro (rfl | rfl)
    · exact hcontends first (by simp)
    · exact hcontends second (by simp)

/-- Both nodes are in service before the removal. -/
theorem mem_active_untested {worker : Nat} (hworker : worker = 1 ∨ worker = 2) :
    (.writing worker : PublicKey) ∈
      (Registry.untested.draft (dividedContext 1 2) (.forked 5 4) []).registry.active.keys := by
  rcases hworker with rfl | rfl
  · decide +kernel
  · decide +kernel

/-- What taking a block of another branch comes to does not depend on the order in which other
branches are tried, if the votes on each of its state changes are about one node. But if the last
one is a removal, every node that its votes may be about is the one that is removed, in some
order. -/
theorem addAltBlock_unordered (l : LiveRegistry) (s : Surroundings) (block : Block)
    (txs : List Transaction) (checkpoint : Option Checkpoint) :
    ((∀ parent, l.parentOf? block = some parent →
        NamesOneNodeEach (l.context s (l.besideView parent)) block txs) →
      ∀ order, order.Perm l.history.alternatives.values →
        l.branchTrying s block txs checkpoint order =
            l.branchTrying s block txs checkpoint l.history.alternatives.values ∧
          l.addAltBlockTrying s block txs checkpoint order =
            l.addAltBlock s block txs checkpoint) ∧
    ∀ parent earlier tx change key, l.parentOf? block = some parent → txs = earlier ++ [tx] →
      NamesOneNodeEach (l.context s (l.besideView parent)) block earlier →
      tx.kind = .stateChange → tx.stateChange? = some change → change.kind = .deregister →
      Contends (l.context s (l.besideView parent)) change block.height key →
      ∃ order, order.Perm l.history.alternatives.values ∧ ∀ next outcome,
        l.branchTrying s block txs checkpoint order = .ok (next, outcome) →
        ∀ node, node ∈ next.active.keys ↔ node ≠ key ∧
          node ∈ (parent.draft (l.context s (l.besideView parent)) block
            earlier).registry.active.keys := by
  refine ⟨fun heach order hperm => ?_, fun parent earlier tx change key hparent htxs heach hkind
    hcarries hremoval hcontends => ?_⟩
  · have hsame := @branchTrying_eq_of_namesOneNodeEach l s block txs checkpoint order heach hperm
    refine ⟨hsame, ?_⟩
    rw [← addAltBlockTrying_values]
    unfold addAltBlockTrying
    rw [hsame]
  · obtain ⟨order, hperm, hvoted⟩ := hcontends.exists_order
    refine ⟨order, hperm, fun next outcome hnext node => ?_⟩
    have happly := apply_of_branchTrying hparent hnext
    rw [htxs] at happly
    rw [← parent.draft_trying heach hperm]
    exact Registry.mem_active_of_removal happly hkind hcarries hremoval hvoted

/-- Where two other branches test the same node, their order does not matter to its removal. Where
they test two nodes, either one is removed in some order, and the other one is not. -/
theorem addAltBlock_unordered_divided :
    (∀ order, order.Perm (divided 1 1).history.alternatives.values →
      (divided 1 1).branchTrying .trusting (.forked 5 4) [.removing 3] none order =
          (divided 1 1).branchTrying .trusting (.forked 5 4) [.removing 3] none
            (divided 1 1).history.alternatives.values ∧
        (divided 1 1).addAltBlockTrying .trusting (.forked 5 4) [.removing 3] none order =
          (divided 1 1).addAltBlock .trusting (.forked 5 4) [.removing 3] none) ∧
    ∀ worker other, worker = 1 ∧ other = 2 ∨ worker = 2 ∧ other = 1 →
      ∃ order next outcome, order.Perm (divided 1 2).history.alternatives.values ∧
        (divided 1 2).branchTrying .trusting (.forked 5 4) [.removing 3] none order =
          .ok (next, outcome) ∧
        .writing worker ∉ next.active.keys ∧ .writing other ∈ next.active.keys := by
  refine ⟨(addAltBlock_unordered (divided 1 1) .trusting (.forked 5 4) [.removing 3] none).1
    fun parent hparent => ?_, fun worker other hnodes => ?_⟩
  · rw [parentOf?_divided] at hparent
    cases hparent
    intro tx htx _ change hchange key key' hkey hkey'
    rw [List.mem_singleton.1 htx, Transaction.stateChange?_removing] at hchange
    cases hchange
    rw [or_self_iff.1 (contends_divided_iff.1 hkey), or_self_iff.1 (contends_divided_iff.1 hkey')]
  · have hcontends : Contends (dividedContext 1 2) (.removal 3) 5 (.writing worker) :=
      contends_divided_iff.2 (by rcases hnodes with ⟨rfl, -⟩ | ⟨rfl, -⟩ <;> simp)
    obtain ⟨order, hperm, hactive⟩ :=
      (addAltBlock_unordered (divided 1 2) .trusting (.forked 5 4) [.removing 3] none).2
        .untested [] (.removing 3) (.removal 3) (.writing worker) (parentOf?_divided 1 2) rfl
        (fun _ htx => by cases htx) rfl (Transaction.stateChange?_removing 3) rfl hcontends
    obtain ⟨next, outcome, hnext⟩ := exists_branchTrying_eq_ok (s := .trusting)
      (parentOf?_divided 1 2) rfl rfl (Block.isMined_forked 5 4) rfl
    refine ⟨order, next, outcome, hperm, hnext, fun hmem => ?_, ?_⟩
    · exact ((hactive next outcome hnext _).1 hmem).1 rfl
    · refine (hactive next outcome hnext _).2 ⟨?_, mem_active_untested ?_⟩
      · rcases hnodes with ⟨rfl, rfl⟩ | ⟨rfl, rfl⟩
        · decide
        · decide
      · exact hnodes.symm.imp And.right And.right

end LiveRegistry

end StakeRegistry
