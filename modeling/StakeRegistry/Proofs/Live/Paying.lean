import StakeRegistry.Proofs.Live.Voting
import StakeRegistry.Proofs.Transition.Returns

/-!
# What the ledger is handed

A live registry hands the ledger what the exits in its blocks pay back. An exit leaves the entry
that it names, so it can be repeated, and its payment with it. Main statements:

* `LiveRegistry.Offered.ledger_eq`: while blocks are offered, the ledger grows by what their
  transactions pay back, in order, and by nothing else;
* `LiveRegistry.Offered.paid_per_exit`: what is paid back for a node between a registration of it
  through the bridge and the next one, counted by the exits that name it.
-/

set_option autoImplicit false

namespace StakeRegistry

namespace LiveRegistry

/-! ## Effects on the ledger -/

/-- The effects of a block hand the ledger what the block pays back. -/
theorem ledger_takeEffects (l : LiveRegistry) (s : Surroundings) (outcome : Outcome) :
    (l.takeEffects s outcome).ledger = l.ledger ++ outcome.returned := by
  obtain ⟨records, hrecords⟩ := ButRecords.changeRecords l outcome
  unfold takeEffects saveRecords
  rw [hrecords]
  split <;> rfl

theorem ledger_notePulse (l : LiveRegistry) (s : Surroundings) (block : Block) :
    (l.notePulse s block).2.ledger = l.ledger := by
  obtain ⟨records, hrecords⟩ := ButRecords.notePulse l s block
  rw [hrecords]

/-! ## Blocks that are offered -/

/-- A live registry was offered blocks, one after the other, and has become another one. On record
are the blocks that it has applied. What surrounds it may be different each time. -/
inductive Offered (l : LiveRegistry) : LiveRegistry → List Applied → Prop where
  | nil : Offered l l []
  | add {l' : LiveRegistry} {log : List Applied} {s : Surroundings} {block : Block}
      {txs : List Transaction} {checkpoint : Option Checkpoint} (offered : Offered l l' log) :
      Offered l (l'.addBlock s block txs checkpoint).2 (log ++ l'.added s block txs checkpoint)

/-- A block that is offered is applied to the head, and pays into the ledger, or changes nothing. -/
theorem added_cases (l : LiveRegistry) (s : Surroundings) (block : Block)
    (txs : List Transaction) (checkpoint : Option Checkpoint) :
    (l.added s block txs checkpoint = [] ∧ (l.addBlock s block txs checkpoint).2 = l) ∨
      ∃ a outcome, l.added s block txs checkpoint = [a] ∧ a.before = l.head ∧
        a.before.apply a.ctx a.block a.txs = .ok (a.after, outcome) ∧
        (l.addBlock s block txs checkpoint).2.head = a.after ∧
        (l.addBlock s block txs checkpoint).2.ledger = l.ledger ++ outcome.returned := by
  unfold added
  rw [addBlock_eq]
  by_cases hfork : block.fork < HardFork.serviceNodes
  · rw [if_pos hfork, if_pos hfork]
    exact .inl ⟨rfl, rfl⟩
  · rw [if_neg hfork, if_neg hfork]
    cases hadvance : l.advance s block txs checkpoint true with
    | error e => exact .inl ⟨rfl, rfl⟩
    | ok p =>
        obtain ⟨outcome, next⟩ := p
        obtain ⟨head, happly, -, rfl⟩ := advance_eq_ok_iff.1 hadvance
        refine .inr ⟨_, outcome, rfl, rfl, happly, (SamePast.afterBlock _ s outcome block).head, ?_⟩
        show ((takeEffects _ s outcome).notePulse s block).2.ledger = _
        rw [ledger_notePulse, ledger_takeEffects]

namespace Offered

variable {l l' : LiveRegistry} {log : List Applied}

/-- While blocks are mined, one that comes next can be offered with any transactions, and is
applied. -/
theorem exists_of_mined (l : LiveRegistry) (s : Surroundings) {block : Block}
    (txs : List Transaction) (hmined : block.IsMined) (hfork : HardFork.serviceNodes ≤ block.fork)
    (hparent : (s.chain.blockByHash? block.prevHash).isSome = true)
    (hheight : l.head.height + 1 = block.height)
    (hfew : l.head.active.length < l.rules.pulseMinNodes) :
    ∃ l' head, Offered l l' [⟨l.context s l.view, block, txs, l.head, head⟩] := by
  obtain ⟨head, outcome, -, hadvance⟩ := advance_of_mined l s txs hmined hparent hheight hfew
  have hadded : l.added s block txs none = [⟨l.context s l.view, block, txs, l.head, head⟩] := by
    unfold added applied
    rw [if_neg (HardFork.not_lt.2 hfork), hadvance]
  have hoffered : Offered l (l.addBlock s block txs none).2 ([] ++ l.added s block txs none) :=
    .add .nil
  rw [hadded] at hoffered
  exact ⟨_, head, hoffered⟩

/-- The head passes through the transactions of the blocks that were applied. -/
theorem passes (h : Offered l l' log) :
    Registry.Passes l.head (log.flatMap Applied.steps) l'.head := by
  induction h with
  | nil => exact .refl _
  | @add l' log s block txs checkpoint _ ih =>
      rcases l'.added_cases s block txs checkpoint with
        ⟨hnone, hsame⟩ | ⟨a, outcome, hadded, hbefore, happly, hhead, -⟩
      · rw [hnone, hsame, List.append_nil]
        exact ih
      · have hblock : Registry.Passes l'.head a.steps a.after := by
          rw [← hbefore]
          exact Registry.passes_of_apply happly
        rw [hadded, hhead, List.flatMap_append, List.flatMap_singleton]
        exact ih.append hblock

/-- The ledger grows by what the transactions pay back, in order. -/
theorem ledger_eq (h : Offered l l' log) :
    l'.ledger = l.ledger ++ (log.flatMap Applied.steps).flatMap AppliedTx.returned := by
  induction h with
  | nil => simp
  | @add l' log s block txs checkpoint _ ih =>
      rcases l'.added_cases s block txs checkpoint with
        ⟨hnone, hsame⟩ | ⟨a, outcome, hadded, -, happly, -, hledger⟩
      · rw [hnone, hsame, List.append_nil]
        exact ih
      · rw [hledger, ih, Applied.returned_of_apply happly, hadded]
        simp only [List.flatMap_append, List.flatMap_singleton, List.append_assoc]

variable {pre life post : List AppliedTx} {r : AppliedTx} {key : PublicKey} {info : NodeInfo}

/-- What a live registry hands the ledger for a node between a registration of it through the bridge
and the next registration of it, while blocks are offered. For each exit in between that names the
node it is the requirement at most. If the node takes no further stakes, as a fully funded one never
does, it is at most what was contributed at the registration, if one exit names the node; each exit
that releases the requirement pays just that. -/
theorem paid_per_exit (h : Offered l l' log)
    (hlog : log.flatMap Applied.steps = pre ++ r :: (life ++ post)) (hbridges : r.Bridges key info)
    (hlife : ∀ s ∈ life, ∀ origin, s.created? ≠ some (key, origin)) :
    l'.ledger = l.ledger ++ pre.flatMap AppliedTx.returned ++ life.flatMap AppliedTx.returned ++
      post.flatMap AppliedTx.returned ∧
    paidFor key (life.flatMap AppliedTx.returned) ≤
      life.countP (·.exits key) * info.stakingRequirement ∧
    (info.isFullyFunded = true → ∀ s ∈ life, ¬ s.Credits key) ∧
    ((∀ s ∈ life, ¬ s.Credits key) →
      (life.countP (·.exits key) ≤ 1 →
        paidFor key (life.flatMap AppliedTx.returned) ≤ info.totalContributed) ∧
      ((∀ s ∈ life, s.exits key = true → s.ctx.rules.stakingRequirement ≤ s.released) →
        paidFor key (life.flatMap AppliedTx.returned) =
          life.countP (·.exits key) * info.totalContributed)) := by
  have hall : Registry.Passes l.head (pre ++ r :: (life ++ post)) l'.head := hlog ▸ h.passes
  obtain ⟨before, -, hfrom⟩ := hall.of_append
  obtain ⟨after, hpassed⟩ : ∃ after, Registry.Passes r.after.registry life after := by
    cases hfrom with
    | cons kept rest =>
        obtain ⟨after, hlasts, -⟩ := rest.of_append
        exact ⟨after, hlasts⟩
  have hinfo : r.after.registry.info? key = some info := by
    rw [hbridges.info?_after, if_pos rfl]
  obtain ⟨hmost, huncredited⟩ :=
    hpassed.paid_since_registration hinfo (balanced_of_bridgedNode hbridges.registers) hlife
  refine ⟨?_, hmost, hpassed.no_credits hinfo hlife, fun hcredits => ?_⟩
  · rw [h.ledger_eq, hlog, List.flatMap_append, List.flatMap_cons, List.flatMap_append,
      hbridges.returned_eq]
    simp only [List.nil_append, List.append_assoc]
  · obtain ⟨hcontributed, hexact⟩ := huncredited hcredits
    refine ⟨fun honce => ?_, hexact⟩
    calc paidFor key (life.flatMap AppliedTx.returned)
        ≤ life.countP (·.exits key) * info.totalContributed := hcontributed
      _ ≤ 1 * info.totalContributed := Nat.mul_le_mul_right _ honce
      _ = info.totalContributed := Nat.one_mul _

end Offered

end LiveRegistry

/-- The exit of the node of `registering`, for which the contract releases all of its stake. -/
def Transaction.exiting (number : Nat) : Transaction :=
  { (default : Transaction) with
    kind := .bridgeExit
    extra := [.bridgeExit ⟨.writing number, .writing number, 100 * coin⟩] }

namespace LiveRegistry

/-- A live registry that begins. -/
def beginning : LiveRegistry := start .bridged ∅ []

/-- A node is registered in the first block, and exits twice. -/
def exitedTwice : List AppliedTx :=
  Registry.steps beginning.head (beginning.context .trusting beginning.view) (.plain 1 .v21)
    [.registering 1, .exiting 1, .exiting 1]

namespace Offered

/-- The first exit pays the node's stake back, and the second one pays it again. -/
theorem paid_per_exit_twice :
    ∃ l' log, Offered beginning l' log ∧ log.flatMap Applied.steps = exitedTwice ∧
      ∃ r first second info, exitedTwice = [r, first, second] ∧ r.Bridges (.writing 1) info ∧
        info.isFullyFunded = true ∧ info.totalContributed = 100 * coin ∧
        paidFor (.writing 1) first.returned ≤ 100 * coin ∧
        paidFor (.writing 1) l'.ledger = 200 * coin := by
  obtain ⟨l', head, hoffered⟩ := exists_of_mined beginning .trusting
    [.registering 1, .exiting 1, .exiting 1] (Block.isMined_plain 1 .v21) (by decide) rfl
    (by decide) (by decide)
  obtain ⟨r, first, second, hsteps, hkind, hnode, hexits⟩ : ∃ r first second,
      exitedTwice = [r, first, second] ∧ r.tx.kind = .bridgeRegistration ∧
      ((bridgedNode r.ctx.suite r.ctx.rules (r.block.place r.index) r.tx).toOption.any fun n =>
        n.1 = .writing 1 && n.2.isFullyFunded && n.2.totalContributed = 100 * coin) = true ∧
      ∀ s ∈ [first, second], s.created? = none ∧ s.exits (.writing 1) = true ∧
        s.ctx.rules.stakingRequirement ≤ s.released :=
    ⟨_, _, _, rfl, rfl, by decide +kernel, by decide +kernel⟩
  obtain ⟨⟨key, info⟩, hregisters, hfacts⟩ := (Option.any_eq_true _ _).1 hnode
  simp only [Bool.and_eq_true, decide_eq_true_eq] at hfacts
  obtain ⟨⟨rfl, hfunded⟩, hcontributed⟩ := hfacts
  have hbridges : r.Bridges (.writing 1) info := ⟨hkind, eq_ok_of_toOption hregisters⟩
  have hlife : ∀ s ∈ [first, second], ∀ origin, s.created? ≠ some (.writing 1, origin) := by
    intro s hs origin
    rw [(hexits s hs).1]
    rintro ⟨⟩
  have hcount : [first, second].countP (·.exits (.writing 1)) = 2 :=
    List.countP_eq_length.2 fun s hs => (hexits s hs).2.1
  -- The run is split behind the first exit, and behind the second one.
  have hfirst : exitedTwice = [] ++ r :: ([first] ++ [second]) := hsteps
  have hsecond : exitedTwice = [] ++ r :: ([first, second] ++ []) := hsteps
  obtain ⟨-, -, hnone, honce⟩ := hoffered.paid_per_exit hfirst hbridges fun s hs =>
    hlife s (by simp [List.mem_singleton.1 hs])
  obtain ⟨hledger, -, hnone', htwice⟩ := hoffered.paid_per_exit hsecond hbridges hlife
  refine ⟨l', _, hoffered, rfl, r, first, second, info, hsteps, hbridges, hfunded, hcontributed,
    ?_, ?_⟩
  · have hleast := (honce (hnone hfunded)).1 List.countP_le_length
    rwa [List.flatMap_singleton, hcontributed] at hleast
  · have hboth := (htwice (hnone' hfunded)).2 fun s hs _ => (hexits s hs).2.2
    rw [hcount, hcontributed] at hboth
    calc paidFor (.writing 1) l'.ledger
        = paidFor (.writing 1) ([first, second].flatMap AppliedTx.returned) := by
          rw [hledger]
          simp [beginning, start]
      _ = 2 * (100 * coin) := hboth
      _ = 200 * coin := (Nat.mul_assoc 2 100 coin).symm

end Offered

end LiveRegistry

end StakeRegistry
