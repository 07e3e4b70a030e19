import StakeRegistry.Proofs.Live.Following
import StakeRegistry.Proofs.Live.Mining
import StakeRegistry.Proofs.Transition.Applied
import StakeRegistry.Proofs.Transition.Turns

/-!
# State changes rest on real quorums

A live registry that starts without a snapshot and is then offered blocks, whatever surrounds
it and whether it takes them or not, with every block that it has applied on record
(`LiveRegistry.Recorded`). Votes on a state change are looked up in the tiers of history; what
they find there is the quorum that an earlier block of the same run has left behind
(`LiveRegistry.OnRecord`). Main statements:

* `OnRecord.advance`: a block that is applied keeps the record true;
* `Recorded.state_change_voted`: whenever a state change touches the entry of a node, seven
  validators of the quorum that tested the node have signed the change.
-/

set_option autoImplicit false

namespace StakeRegistry

/-! ## The record of a run -/

/-- The obligations quorum that the block of a height has left behind. -/
def quorumOf (log : List Applied) (height : Nat) : Option Quorum :=
  (log.find? fun a => a.block.height == height).bind (·.after.quorums.obligations)

/-- Every block on record applies, and its votes are counted by the quorums of the blocks
recorded before it. -/
inductive Sound : List Applied → Prop where
  | nil : Sound []
  | snoc {log : List Applied} {a : Applied} {outcome : Outcome} (sound : Sound log)
      (applied : a.before.apply a.ctx a.block a.txs = .ok (a.after, outcome))
      (recalls : a.ctx.view.Recalls (quorumOf log) a.block.height) : Sound (log ++ [a])

theorem quorumOf_append_of_ne (log : List Applied) {a : Applied} {height : Nat}
    (h : a.block.height ≠ height) : quorumOf (log ++ [a]) height = quorumOf log height := by
  unfold quorumOf
  rw [List.find?_append, List.find?_singleton]
  simp [h]

theorem quorumOf_append_self {log : List Applied} {a : Applied}
    (h : ∀ b ∈ log, b.block.height ≠ a.block.height) :
    quorumOf (log ++ [a]) a.block.height = a.after.quorums.obligations := by
  have hnone : log.find? (fun b => b.block.height == a.block.height) = none :=
    List.find?_eq_none.2 fun b hb => by simpa using h b hb
  unfold quorumOf
  rw [List.find?_append, hnone, List.find?_singleton]
  simp

theorem exists_of_quorumOf {log : List Applied} {height : Nat} {q : Quorum}
    (h : quorumOf log height = some q) :
    ∃ a ∈ log, a.block.height = height ∧ a.after.quorums.obligations = some q := by
  obtain ⟨a, ha, hq⟩ := Option.bind_eq_some_iff.1 h
  exact ⟨a, List.mem_of_find?_eq_some ha, by simpa using List.find?_some ha, hq⟩

/-- A block on record was applied in view of the quorums of the blocks before it. -/
theorem Sound.split {log : List Applied} (h : Sound log) {a : Applied} (ha : a ∈ log) :
    ∃ earlier later, log = earlier ++ a :: later ∧ Sound earlier ∧
      a.ctx.view.Recalls (quorumOf earlier) a.block.height := by
  induction h with
  | nil => cases ha
  | @snoc log b outcome sound applied recalls ih =>
      rcases List.mem_append.1 ha with ha | ha
      · obtain ⟨earlier, later, rfl, hsound, hrecalls⟩ := ih ha
        exact ⟨earlier, later ++ [b], by simp, hsound, hrecalls⟩
      · cases List.mem_singleton.1 ha
        exact ⟨log, [], rfl, sound, recalls⟩

theorem Sound.applied {log : List Applied} (h : Sound log) {a : Applied} (ha : a ∈ log) :
    ∃ outcome, a.before.apply a.ctx a.block a.txs = .ok (a.after, outcome) := by
  induction h with
  | nil => cases ha
  | @snoc log b outcome sound applied recalls ih =>
      rcases List.mem_append.1 ha with ha | ha
      · exact ih ha
      · cases List.mem_singleton.1 ha
        exact ⟨outcome, applied⟩

/-- The validators of a quorum that a block has left behind are different nodes, and active after
the block. -/
theorem Sound.validators_of_mem {log : List Applied} (h : Sound log) {a : Applied} (ha : a ∈ log)
    {q : Quorum} (hq : a.after.quorums.obligations = some q) :
    q.validators.Nodup ∧ ∀ key ∈ q.validators, key ∈ a.after.active.keys := by
  obtain ⟨outcome, happly⟩ := h.applied ha
  obtain ⟨q', hq', hmembers⟩ := (Registry.quorumsFormed_of_apply happly).obligations
  cases hq.symm.trans hq'
  exact ⟨hmembers.distinct.sublist (List.sublist_append_left _ _), hmembers.validators_active⟩

namespace LiveRegistry

/-- The record of a block that moves the head on. -/
def applied (l : LiveRegistry) (s : Surroundings) (block : Block) (txs : List Transaction)
    (next : LiveRegistry) : Applied :=
  ⟨l.context s l.view, block, txs, l.head, next.head⟩

/-- The blocks that are applied while canonical blocks of some heights are applied again. -/
def replayed (s : Surroundings) : List Nat → LiveRegistry → List Applied
  | [], _ => []
  | height :: heights, l =>
      match s.chain.blockAt? height with
      | none => []
      | some block =>
          if block.fork < HardFork.serviceNodes then replayed s heights l
          else
            let txs := s.chain.transactionsOf block
            match l.advance s block txs none false with
            | .error _ => []
            | .ok (_, next) => l.applied s block txs next :: replayed s heights next

/-- The blocks that a start without a snapshot applies. -/
def started (l : LiveRegistry) (s : Surroundings) : List Applied :=
  if l.chainFork s < HardFork.serviceNodes then []
  else match (l.load s s.chain.currentHeight).2.reset s with
    | (.error _, _) => []
    | (.ok (), l) =>
        replayed s (List.range' (l.head.height + 1) (s.chain.currentHeight - (l.head.height + 1)))
          l

/-- The block that is applied when it is added: none if it is refused. -/
def added (l : LiveRegistry) (s : Surroundings) (block : Block) (txs : List Transaction)
    (checkpoint : Option Checkpoint) : List Applied :=
  if block.fork < HardFork.serviceNodes then []
  else match l.advance s block txs checkpoint true with
    | .error _ => []
    | .ok (_, next) => [l.applied s block txs next]

/-- A live registry that was started on a store without a snapshot and was then offered blocks,
with every block that it has applied, in order. What surrounds it may be different each time. -/
inductive Recorded : LiveRegistry → List Applied → Prop where
  | init {l : LiveRegistry} {s : Surroundings}
      (noSnapshot : l.store.get? Store.shortTermKey = none) :
      Recorded (l.init s).2 (l.started s)
  | add {l : LiveRegistry} {log : List Applied} {s : Surroundings} {block : Block}
      {txs : List Transaction} {checkpoint : Option Checkpoint} (recorded : Recorded l log) :
      Recorded (l.addBlock s block txs checkpoint).2 (log ++ l.added s block txs checkpoint)

/-! ## What every block keeps -/

section Induction

variable {P : LiveRegistry → List Applied → Prop} {l : LiveRegistry} {log : List Applied}
  {s : Surroundings}

/-- What every block keeps that is applied, blocks applied again keep, until one of them fails. -/
theorem replay_induction
    (advance : ∀ {l next : LiveRegistry} {log : List Applied} {block : Block}
      {txs : List Transaction} {outcome : Outcome}, P l log →
      l.advance s block txs none false = .ok (outcome, next) →
        P next (log ++ [l.applied s block txs next]))
    (heights : List Nat) (h : P l log) :
    P (replay s heights l).2 (log ++ replayed s heights l) := by
  induction heights generalizing l log with
  | nil =>
      rw [replayed, List.append_nil]
      exact h
  | cons height heights ih =>
      unfold LiveRegistry.replay replayed
      cases s.chain.blockAt? height with
      | none =>
          dsimp only
          rw [List.append_nil]
          exact h
      | some block =>
          dsimp only
          by_cases hfork : block.fork < HardFork.serviceNodes
          · rw [if_pos hfork, if_pos hfork]
            exact ih h
          · rw [if_neg hfork, if_neg hfork]
            cases hadvance : l.advance s block (s.chain.transactionsOf block) none false with
            | error e =>
                dsimp only
                rw [List.append_nil]
                exact h
            | ok p =>
                obtain ⟨outcome, next⟩ := p
                have hrest := ih (advance h hadvance)
                rwa [List.append_assoc, List.singleton_append] at hrest

/-- What every block keeps that is applied, an offered block keeps, if effects keep it. -/
theorem addBlock_induction {block : Block} {txs : List Transaction}
    {checkpoint : Option Checkpoint}
    (advance : ∀ {next : LiveRegistry} {outcome : Outcome}, P l log →
      l.advance s block txs checkpoint true = .ok (outcome, next) →
        P next (log ++ [l.applied s block txs next]))
    (samePast : ∀ {l l' : LiveRegistry} {log : List Applied}, P l log → l.SamePast l' → P l' log)
    (h : P l log) :
    P (l.addBlock s block txs checkpoint).2 (log ++ l.added s block txs checkpoint) := by
  unfold added
  rw [addBlock_eq]
  by_cases hfork : block.fork < HardFork.serviceNodes
  · rw [if_pos hfork, if_pos hfork, List.append_nil]
    exact h
  · rw [if_neg hfork, if_neg hfork]
    cases hadvance : l.advance s block txs checkpoint true with
    | error e =>
        dsimp only
        rw [List.append_nil]
        exact h
    | ok p =>
        obtain ⟨outcome, next⟩ := p
        exact samePast (advance h hadvance) (.afterBlock next s outcome block)

/-- What holds of every registry that was reset, and every block keeps that is applied, holds
along the record of a run, if effects keep it. -/
theorem Recorded.invariant
    (reset : ∀ (l : LiveRegistry) (s : Surroundings), P (l.reset s).2 [])
    (advance : ∀ {l next : LiveRegistry} {log : List Applied} {s : Surroundings} {block : Block}
      {txs : List Transaction} {checkpoint : Option Checkpoint} {verify : Bool} {outcome : Outcome},
      P l log → l.advance s block txs checkpoint verify = .ok (outcome, next) →
        P next (log ++ [l.applied s block txs next]))
    (samePast : ∀ {l l' : LiveRegistry} {log : List Applied}, P l log → l.SamePast l' → P l' log)
    (h : Recorded l log) : P l log := by
  induction h with
  | add recorded ih => exact addBlock_induction advance samePast ih
  | @init l s noSnapshot =>
      unfold started
      by_cases hfork : l.chainFork s < HardFork.serviceNodes
      · unfold LiveRegistry.init
        rw [if_pos hfork, if_pos hfork]
        exact reset l s
      · have hload := load_of_noSnapshot (s := s) noSnapshot s.chain.currentHeight
        rw [init_of_unloaded hfork fun hloaded => hload.1 hloaded.1, if_neg hfork]
        have hempty := reset (l.load s s.chain.currentHeight).2 s
        generalize (l.load s s.chain.currentHeight).2.reset s = emptied at hempty
        obtain ⟨answer, empty⟩ := emptied
        cases answer with
        | error e => exact hempty
        | ok _ => exact replay_induction advance _ hempty

end Induction

/-! ## The invariant -/

/-- The record is sound, and the past of the registry holds the quorums on record. -/
structure OnRecord (l : LiveRegistry) (log : List Applied) : Prop where
  sound : Sound log
  below : ∀ a ∈ log, a.block.height ≤ l.head.height
  recalls : l.view.Recalls (quorumOf log) (l.head.height + 1)

section Runs

variable {l l' next : LiveRegistry} {log : List Applied} {s : Surroundings} {block : Block}
  {txs : List Transaction} {checkpoint : Option Checkpoint}

theorem OnRecord.of_samePast (h : OnRecord l log) (hpast : l.SamePast l') : OnRecord l' log := by
  refine ⟨h.sound, ?_, ?_⟩
  · rw [hpast.head]
    exact h.below
  · rw [hpast.view, hpast.head]
    exact h.recalls

/-- A registry that was emptied has an empty record. -/
theorem onRecord_cleared (l : LiveRegistry) : OnRecord l.cleared [] := by
  refine ⟨.nil, by simp, ?_⟩
  exact HistoryView.recalls_of_empty rfl rfl rfl fun _ _ => rfl

theorem onRecord_reset (l : LiveRegistry) (s : Surroundings) : OnRecord (l.reset s).2 [] := by
  have hcleared := onRecord_cleared l
  unfold reset
  split
  · exact hcleared
  · exact ⟨hcleared.sound, hcleared.below, hcleared.recalls⟩

/-- A block that is applied keeps the record true. -/
theorem OnRecord.advance (h : OnRecord l log) {verify : Bool} {outcome : Outcome}
    (hadvance : l.advance s block txs checkpoint verify = .ok (outcome, next)) :
    OnRecord next (log ++ [l.applied s block txs next]) := by
  obtain ⟨head, happly, -, rfl⟩ := advance_eq_ok_iff.1 hadvance
  have hafter : head.height = block.height := Registry.height_of_apply happly
  have hbefore : l.head.height + 1 = block.height := Registry.height_before_apply happly
  have hheight : head.height = l.head.height + 1 := by omega
  have hrecalls := h.recalls
  rw [hbefore] at hrecalls
  refine ⟨.snoc h.sound happly hrecalls, fun a ha => ?_, ?_⟩
  · rcases List.mem_append.1 ha with ha | ha
    · have hold := h.below a ha
      show a.block.height ≤ head.height
      omega
    · rw [List.mem_singleton.1 ha]
      exact Nat.le_of_eq hafter.symm
  · -- The old head goes into history, and the quorum of the new one joins the record.
    rw [← hafter]
    refine HistoryView.recalls_push (h.recalls.congr fun height hlow => ?_) hheight ?_
    · refine quorumOf_append_of_ne log ?_
      show block.height ≠ height
      omega
    · rw [hafter]
      refine quorumOf_append_self fun a ha => ?_
      have hold := h.below a ha
      show a.block.height ≠ block.height
      omega

theorem Recorded.onRecord (h : Recorded l log) : OnRecord l log :=
  h.invariant onRecord_reset (fun h hadvance => h.advance hadvance) fun h hpast => h.of_samePast hpast

end Runs

/-! ## What a state change rests on -/

/-- Whenever a state change in a block that was applied touches the entry of a node, it names a
height of the last sixty below the block; the block of that height, applied earlier in the same
run, has left behind an obligations quorum that tests the node at the position named; and seven
different validators of that quorum, all of them active after its block, have signed the
change. -/
theorem Recorded.state_change_voted {l : LiveRegistry} {log : List Applied}
    (h : Recorded l log) {a : Applied} (ha : a ∈ log) {i : Nat} {tx : Transaction}
    (htx : a.txs[i]? = some tx) (hkind : tx.kind = .stateChange) {key : PublicKey}
    (hchanged : (a.registryAt (i + 1)).info? key ≠ (a.registryAt i).info? key) :
    ∃ change, tx.stateChange? = some change ∧
      change.height < a.block.height ∧ a.block.height ≤ change.height + voteLifetime ∧
      ∃ earlier later past q, log = earlier ++ a :: later ∧ past ∈ earlier ∧
        past.block.height = change.height ∧ past.after.quorums.obligations = some q ∧
        q.workers[change.index]? = some key ∧
        ∃ voters : List PublicKey, voters.Nodup ∧ 7 ≤ voters.length ∧
          ∀ voter ∈ voters, voter ∈ q.validators ∧ voter ∈ past.after.active.keys ∧
            ∃ vote ∈ change.votes, q.validators[vote.validatorIndex]? = some voter ∧
              a.ctx.suite.verify (voteHash a.ctx.suite change.height change.index change.kind)
                voter vote.signature = true := by
  obtain ⟨earlier, later, hlog, hsound, hrecalls⟩ := h.onRecord.sound.split ha
  rw [a.registryAt_succ htx hkind] at hchanged
  obtain ⟨change, q, info, hvotes⟩ := Draft.votes_of_info?_ne hchanged
  have hcarried := carriedBy_of_votingQuorum? hvotes.voted
  obtain ⟨hlatest, halive⟩ := hcarried.inLifetime
  -- The quorum that was asked is the one on record, so a block has left it behind.
  have hrecorded : quorumOf earlier change.height = some q := by
    have hvoted := hvotes.voted
    rw [votingQuorum?_eq hrecalls.canonical, hrecalls.quorum _ hlatest halive] at hvoted
    exact (Option.filter_eq_some_iff.1 hvoted).1
  obtain ⟨past, hpast, hheight, hq⟩ := exists_of_quorumOf hrecorded
  obtain ⟨hdistinct, hactive⟩ := hsound.validators_of_mem hpast hq
  obtain ⟨voters, hnodup, henough, hvoters⟩ := hcarried.exists_voters hdistinct
  refine ⟨change, hvotes.carries, hlatest, halive, earlier, later, past, q, hlog, hpast, hheight,
    hq, hvotes.on, voters, hnodup, henough, fun voter hvoter => ?_⟩
  obtain ⟨hmem, hsigned⟩ := hvoters voter hvoter
  exact ⟨hmem, hactive voter hmem, hsigned⟩

end LiveRegistry

/-! ## Eleven nodes on the fake chain -/

/-- The fake chain with the bridge from height one on. -/
def Settings.bridged : Settings :=
  ⟨.fakechain, 0, false, [⟨.v7, 0⟩, ⟨.v21, 1⟩], none⟩

/-- Surroundings that trust every signature, and show one block as the parent of all others. -/
def Surroundings.trusting : Surroundings :=
  ⟨.trusting, ⟨0, fun _ => none, fun _ => some (.plain 0 .v21), fun _ => none⟩, 0, none, none, 0⟩

/-- The registrations of eleven nodes: ten that vote and one that is tested. -/
def elevenNodes : List Transaction := (List.range 11).map fun i => .registering (i + 1)

theorem kind_of_mem_elevenNodes {tx : Transaction} (h : tx ∈ elevenNodes) :
    tx.kind ≠ .stateChange := by
  obtain ⟨i, -, rfl⟩ := List.mem_map.1 h
  rintro ⟨⟩

/-- The removal of the first node that the quorum of a height tests, with the votes of the first
seven validators. -/
def StateChange.removal (height : Nat) : StateChange :=
  ⟨.deregister, height, 0, 0, 0, (List.range stateChangeVotes).map fun i => ⟨i, 0⟩⟩

def Transaction.removing (height : Nat) : Transaction :=
  { (default : Transaction) with
    kind := .stateChange
    extra := [.stateChange (.removal height)] }

theorem Transaction.stateChange?_removing (height : Nat) :
    Transaction.stateChange? (.removing height) = some (.removal height) := rfl

/-- Where signatures are trusted, every quorum with seven validators and a worker carries the
removal. -/
theorem carriedBy_removal {q : Quorum} {height latest : Nat}
    (henough : stateChangeVotes ≤ q.validators.length) (hworker : 0 < q.workers.length)
    (hpast : height < latest) (halive : latest ≤ wrapAdd height voteLifetime) :
    (StateChange.removal height).CarriedBy .trusting latest q := by
  refine ⟨?_, hpast, halive, hworker, ?_, fun vote hvote => ?_⟩
  · simp [StateChange.removal]
  · simp [StateChange.removal, List.map_map, Function.comp_def, List.nodup_range]
  · obtain ⟨i, hi, rfl⟩ := List.mem_map.1 hvote
    have hlow : i < q.validators.length := Nat.lt_of_lt_of_le (List.mem_range.1 hi) henough
    exact ⟨q.validators[i], List.getElem?_eq_getElem hlow, rfl⟩

/-- A context of blocks that carry no votes: of the past, they read nothing. -/
def Context.trusting : Context :=
  ⟨NetworkRules.of .fakechain, .trusting, Surroundings.trusting.chain, .of (.new 0) (.new 0)⟩

section Bridged

variable {l : LiveRegistry} {view : HistoryView} {block : Block} {txs : List Transaction}
  {r r' next : Registry}

theorem rules_of_bridged (hsettings : l.settings = .bridged) :
    l.rules = NetworkRules.of .fakechain := congrArg Settings.rules hsettings

theorem agrees_trusting (hrules : l.rules = NetworkRules.of .fakechain)
    (hquiet : ∀ tx ∈ txs, tx.kind ≠ .stateChange) :
    Context.Agrees .trusting (l.context .trusting view) block txs := by
  refine ⟨hrules, rfl, fun _ => rfl, fun _ => ?_, fun tx htx hkind => absurd hkind (hquiet tx htx)⟩
  unfold registeredOnePeriodBack LiveRegistry.context
  rw [hrules]
  rfl

/-- The draft of a block without votes does not depend on the quorums drawn before it. -/
theorem draft_eq_trusting (hrules : l.rules = NetworkRules.of .fakechain)
    (hquiet : ∀ tx ∈ txs, tx.kind ≠ .stateChange) (h : r.SameButQuorums r') :
    r'.draft (l.context .trusting view) block txs = r.draft .trusting block txs := by
  rw [h.draft_eq]
  exact Registry.draft_congr (agrees_trusting hrules hquiet) r

theorem sameButQuorums_of_apply (hrules : l.rules = NetworkRules.of .fakechain)
    (hquiet : ∀ tx ∈ txs, tx.kind ≠ .stateChange) (h : r.SameButQuorums r')
    {outcome : Outcome}
    (happly : r'.apply (l.context .trusting view) block txs = .ok (next, outcome)) :
    (r.settled .trusting block txs).SameButQuorums next := by
  obtain ⟨-, -, quorums, -, rfl⟩ := Registry.apply_eq_ok_iff.1 happly
  refine ⟨quorums, ?_⟩
  unfold Registry.settled
  rw [draft_eq_trusting hrules hquiet h]

end Bridged

/-- Eleven nodes, after the first block. -/
def Registry.eleven : Registry := (Registry.new 0).settled .trusting (.plain 1 .v21) elevenNodes

theorem length_active_eleven : Registry.eleven.active.length = 11 := by decide +kernel

theorem decommissioned_eleven : Registry.eleven.decommissioned = [] := by decide +kernel

theorem keys_draft_eleven :
    (Registry.eleven.draft .trusting (.plain 2 .v21) []).registry.active.keys =
      Registry.eleven.active.keys := by decide +kernel

namespace LiveRegistry

/-- Eleven nodes are registered in the first block, and the second one carries the removal of the
node that is tested after the first. -/
theorem Recorded.state_change_voted_of_removal :
    ∃ l log a key, Recorded l log ∧ a ∈ log ∧ a.txs[0]? = some (.removing 1) ∧
      (a.registryAt 1).info? key ≠ (a.registryAt 0).info? key ∧
      ∃ change, Transaction.stateChange? (.removing 1) = some change ∧
        change.height < a.block.height ∧
        ∃ voters : List PublicKey, voters.Nodup ∧ 7 ≤ voters.length := by
  obtain ⟨l₀, log₀, h₀, hsettings₀, hhead₀⟩ : ∃ l log, Recorded l log ∧ l.settings = .bridged ∧
      l.head = .new 0 := ⟨((start .bridged ∅ []).init .trusting).2, _, .init rfl, rfl, rfl⟩
  -- The first block.
  obtain ⟨r₁, o₁, happly₁, -, hpast₁⟩ := addBlock_of_mined l₀ .trusting elevenNodes
    (Block.isMined_plain 1 .v21) (by decide) rfl (by rw [hhead₀]; rfl)
    (by rw [hhead₀, rules_of_bridged hsettings₀]; decide)
  have h₁ : Recorded (l₀.addBlock .trusting (.plain 1 .v21) elevenNodes none).2 _ := .add h₀
  generalize (l₀.addBlock .trusting (.plain 1 .v21) elevenNodes none).2 = l₁ at h₁ hpast₁
  have hsettings₁ : l₁.settings = .bridged := hpast₁.settings.trans hsettings₀
  have hhead₁ : l₁.head = r₁ := hpast₁.head
  have hheight₁ : r₁.height = 1 := Registry.height_of_apply happly₁
  have hsame₁ : Registry.eleven.SameButQuorums r₁ := by
    rw [hhead₀] at happly₁
    exact sameButQuorums_of_apply (rules_of_bridged hsettings₀)
      (fun _ => kind_of_mem_elevenNodes) (.refl _) happly₁
  have hactive₁ : r₁.active = Registry.eleven.active := hsame₁.active
  have hfew : r₁.active.length < l₁.rules.pulseMinNodes := by
    rw [rules_of_bridged hsettings₁, hactive₁, length_active_eleven]
    decide
  obtain ⟨q, key, hq, hten, hkey, hknown⟩ :=
    (Registry.quorumsFormed_of_apply happly₁).exists_worker (by
      rw [hactive₁, length_active_eleven]
      decide)
  -- The second block.
  obtain ⟨r₂, o₂, happly₂, hadvance⟩ := advance_of_mined l₁ .trusting [.removing 1]
    (Block.isMined_plain 2 .v21) rfl (by rw [hhead₁, hheight₁]; rfl) (by rwa [hhead₁])
  have h₂ : Recorded (l₁.addBlock .trusting (.plain 2 .v21) [.removing 1] none).2 _ := .add h₁
  obtain ⟨a, ha, hadded⟩ : ∃ a : Applied,
      a = ⟨l₁.context .trusting l₁.view, .plain 2 .v21, [.removing 1], r₁, r₂⟩ ∧
      l₁.added .trusting (.plain 2 .v21) [.removing 1] none = [a] := by
    refine ⟨_, rfl, ?_⟩
    unfold added applied
    rw [if_neg (by decide), hadvance, hhead₁]
  rw [hadded] at h₂
  have hdraft : a.before.draft a.ctx a.block [] =
      Registry.eleven.draft .trusting (.plain 2 .v21) [] := by
    rw [ha]
    exact draft_eq_trusting (rules_of_bridged hsettings₁) (by simp) hsame₁
  -- The node is there before the transaction.
  obtain ⟨info, hinfo⟩ : ∃ info, (a.registryAt 0).info? key = some info := by
    have hmem : key ∈ (a.registryAt 0).active.keys := by
      show key ∈ (a.before.draft a.ctx a.block []).registry.active.keys
      rw [hdraft, keys_draft_eleven, ← hactive₁]
      refine hknown.resolve_right fun hdown => ?_
      rw [hsame₁.decommissioned, decommissioned_eleven] at hdown
      cases hdown
    exact Registry.exists_info_of_mem_select hmem
  have hvotes : Draft.Votes a.ctx a.block (.removing 1) (a.before.draft a.ctx a.block [])
      (.removal 1) q key info := by
    refine ⟨rfl, ?_, hkey, hinfo⟩
    have hrecorded : l₁.view.obligations? 1 = some q := by
      unfold view
      rw [HistoryView.obligations?_of, hhead₁, if_pos hheight₁, hq]
    have hworker : 0 < q.workers.length := (List.getElem?_eq_some_iff.1 hkey).1
    rw [ha, votingQuorum?_eq rfl]
    refine Option.filter_eq_some_iff.2 ⟨hrecorded, verifyStateChange_isOk_iff.2 ?_⟩
    exact carriedBy_removal (by rw [hten]; decide) hworker (show 1 < 2 by decide)
      (show 2 ≤ wrapAdd 1 voteLifetime by decide)
  have htx : a.txs[0]? = some (.removing 1) := by rw [ha]; rfl
  have hchanged : (a.registryAt 1).info? key ≠ (a.registryAt 0).info? key := by
    rw [a.registryAt_succ htx rfl, hinfo]
    show ((a.before.draft a.ctx a.block []).applyStateChange a.ctx a.block
      (.removing 1)).registry.info? key ≠ _
    rw [hvotes.info?_of_deregister rfl]
    simp
  obtain ⟨change, hcarries, hpast, -, -, -, -, -, -, -, -, -, -, voters, hnodup, henough, -⟩ :=
    h₂.state_change_voted (by simp) htx rfl hchanged
  exact ⟨_, _, a, key, h₂, by simp, htx, hchanged, change, hcarries, hpast, voters, hnodup, henough⟩

end LiveRegistry

end StakeRegistry
