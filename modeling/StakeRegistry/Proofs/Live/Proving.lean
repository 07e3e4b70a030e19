import StakeRegistry.Proofs.Live.Mining
import StakeRegistry.Proofs.Live.Records
import StakeRegistry.Proofs.Transition.Sequence

/-!
# What is left of the proof of a decommissioned node

A block notes, kind by kind, the nodes that its transactions put out of service and those that they
put back, and changes their records when it has become the head: first the times of the former are
cleared, then the latter count as seen when the block was made. So of a node that has been put out
of service no proof is left, but whether it counts as seen does not depend on what came last: one
that was put back by the same block counts as seen, also if it was put out of service again after
that. Main statements:

* `Registry.mem_noted_iff`: the nodes that a block notes are those whose service its transactions
  have changed;
* `LiveRegistry.times_of_decommissioned`: what the record of a node that a transaction of a block
  has put out of service says after the block.
-/

set_option autoImplicit false

namespace StakeRegistry

/-! ## The nodes that are noted -/

/-- The nodes that a block notes for a change of their service. -/
def Outcome.noted (outcome : Outcome) : StateChangeKind → List PublicKey
  | .decommission => outcome.decommissioned
  | .recommission => outcome.recommissioned.map (·.1)
  | .deregister => []
  | .ipChangePenalty => []

/-- The transaction put a node out of service, or back: a quorum has voted for that, and the node's
standing allows it. -/
structure AppliedTx.ChangesService (s : AppliedTx) (kind : StateChangeKind) (key : PublicKey) :
    Prop where
  carried : s.tx.kind = .stateChange
  service : kind = .decommission ∨ kind = .recommission
  fork : HardFork.checkpointing ≤ s.block.fork
  voted : ∃ change q info, Draft.Votes s.ctx s.block s.tx s.before change q key info ∧
    change.kind = kind ∧ info.standsFor kind = true

namespace Draft

variable {ctx : Context} {block : Block} {index : Nat} {tx : Transaction} {d d' : Draft}

/-- A move notes nobody for a change of service, or the one node whose service it changes. -/
theorem noted_of_move (hmove : Move ctx block index tx d d') (kind : StateChangeKind) :
    d'.outcome.noted kind = d.outcome.noted kind ∨
      ∃ key, AppliedTx.ChangesService ⟨ctx, block, index, tx, d⟩ kind key ∧
        d'.outcome.noted kind = d.outcome.noted kind ++ [key] := by
  cases hmove with
  | @staked entered _ _ enters credits =>
      refine .inl ?_
      have hcredited : d'.outcome = entered.outcome := by cases credits <;> rfl
      have hentered : ∀ key info,
          (d.enter block.fork key info).outcome.noted kind = d.outcome.noted kind := by
        intro key info
        unfold enter
        dsimp only
        split <;> cases kind <;> rfl
      rw [hcredited]
      cases enters with
      | nobody => rfl
      | newcomer => exact hentered _ _
      | again => exact hentered _ _
  | @decommissioned change q key info htx votes asked fork up =>
      cases kind with
      | decommission =>
          exact .inr ⟨key, ⟨htx, .inl rfl, fork, change, q, info, votes, asked,
            by simp [NodeInfo.standsFor, up]⟩, rfl⟩
      | _ => exact .inl rfl
  | @recommissioned change q key info htx votes asked fork down =>
      cases kind with
      | recommission =>
          exact .inr ⟨key, ⟨htx, .inr rfl, fork, change, q, info, votes, asked,
            by simp [NodeInfo.standsFor, down]⟩, by simp [recommission, Outcome.noted]⟩
      | _ => exact .inl rfl
  | _ => exact .inl rfl

end Draft

namespace AppliedTx

variable {s : AppliedTx} {kind : StateChangeKind} {key : PublicKey}

/-- A node whose service is changed is noted. -/
theorem ChangesService.mem_noted (h : s.ChangesService kind key) :
    key ∈ s.after.outcome.noted kind := by
  obtain ⟨htx, hkind, hfork, change, q, info, hvotes, rfl, hstands⟩ := h
  have hafter : s.after = s.before.changeState s.ctx s.block change key info := by
    unfold after
    rw [Draft.applyTransaction_of_stateChange htx, hvotes.applyStateChange_eq]
  have hlater : ¬ s.block.fork < HardFork.checkpointing := HardFork.not_lt.2 hfork
  rw [hafter]
  unfold Draft.changeState
  rcases hkind with hkind | hkind
  · have hup : info.isDecommissioned = false := by
      simpa [NodeInfo.standsFor, hkind] using hstands
    rw [hkind]
    dsimp only
    rw [if_neg (by simp [hlater, hup])]
    simp [Draft.decommission, Outcome.noted]
  · have hdown : info.isDecommissioned = true := by
      simpa [NodeInfo.standsFor, hkind] using hstands
    rw [hkind]
    dsimp only
    rw [if_neg (by simp [hlater, hdown])]
    simp [Draft.recommission, Outcome.noted]

theorem mem_noted_after (s : AppliedTx) (kind : StateChangeKind) (key : PublicKey) :
    key ∈ s.after.outcome.noted kind ↔
      key ∈ s.before.outcome.noted kind ∨ s.ChangesService kind key := by
  have hmove : Draft.Move s.ctx s.block s.index s.tx s.before s.after :=
    Draft.move_applyTransaction s.before s.tx s.index
  constructor
  · intro h
    rcases Draft.noted_of_move hmove kind with hsame | ⟨key', hchanges, hone⟩
    · rw [hsame] at h
      exact .inl h
    · rw [hone, List.mem_append, List.mem_singleton] at h
      exact h.imp_right fun hkey => by rwa [hkey]
  · rintro (h | h)
    · rcases Draft.noted_of_move hmove kind with hsame | ⟨key', -, hone⟩
      · rw [hsame]
        exact h
      · rw [hone]
        exact List.mem_append_left _ h
    · exact h.mem_noted

end AppliedTx

theorem Draft.block_of_mem_stepsFrom {ctx : Context} {block : Block} {txs : List Transaction}
    {index : Nat} {d : Draft} {s : AppliedTx} (h : s ∈ stepsFrom ctx block txs index d) :
    s.block = block := by
  induction txs generalizing index d with
  | nil => cases h
  | cons tx txs ih =>
      rcases List.mem_cons.1 h with rfl | h
      · rfl
      · exact ih h

/-- A block with a transaction that changes a node's service is of a fork that has nodes. -/
theorem Registry.hasNodes_of_mem_steps {r : Registry} {ctx : Context} {block : Block}
    {txs : List Transaction} {t : AppliedTx} {kind : StateChangeKind} {key : PublicKey}
    (ht : t ∈ r.steps ctx block txs) (h : t.ChangesService kind key) :
    ¬ block.fork < HardFork.serviceNodes := by
  have hlater := h.fork
  rw [Draft.block_of_mem_stepsFrom ht] at hlater
  exact HardFork.not_lt.2 (Nat.le_trans
    (show HardFork.serviceNodes ≤ HardFork.checkpointing by decide) hlater)

theorem Draft.mem_noted_stepsFrom {ctx : Context} {block : Block} {kind : StateChangeKind}
    {key : PublicKey} (txs : List Transaction) (index : Nat) (d : Draft) :
    key ∈ ((txs.zipIdx index).foldl
        (fun d p => d.applyTransaction ctx block p.1 p.2) d).outcome.noted kind ↔
      key ∈ d.outcome.noted kind ∨
        ∃ s ∈ stepsFrom ctx block txs index d, s.ChangesService kind key := by
  induction txs generalizing index d with
  | nil => simp [stepsFrom]
  | cons tx txs ih =>
      have hfirst : key ∈ (d.applyTransaction ctx block tx index).outcome.noted kind ↔
          key ∈ d.outcome.noted kind ∨
            AppliedTx.ChangesService ⟨ctx, block, index, tx, d⟩ kind key :=
        AppliedTx.mem_noted_after ⟨ctx, block, index, tx, d⟩ kind key
      rw [List.zipIdx_cons, List.foldl_cons, ih, stepsFrom, List.exists_mem_cons_iff, ← or_assoc]
      exact or_congr_left hfirst

/-- A block notes the nodes whose service its transactions have changed, and nobody else. -/
theorem Registry.mem_noted_iff {r next : Registry} {ctx : Context} {block : Block}
    {txs : List Transaction} {outcome : Outcome} (h : r.apply ctx block txs = .ok (next, outcome))
    (kind : StateChangeKind) (key : PublicKey) :
    key ∈ outcome.noted kind ↔ ∃ s ∈ r.steps ctx block txs, s.ChangesService kind key := by
  obtain ⟨-, rfl, -⟩ := apply_eq_ok_iff.1 h
  have hopened : key ∉ (r.opened ctx block).outcome.noted kind := by
    rw [outcome_opened]
    cases kind <;> exact List.not_mem_nil
  exact (Draft.mem_noted_stepsFrom txs 0 (r.opened ctx block)).trans (or_iff_right hopened)

/-! ## Records that are changed -/

namespace LiveRegistry

variable {l l' : LiveRegistry} {s : Surroundings} {block : Block} {key : PublicKey}

/-- A record that is changed, once or more often, is as every change leaves it; any other is as it
was. -/
theorem get?_foldl_changeRecord {α : Type} {P Q : NodeRecord → Prop} (node : α → PublicKey)
    (f : α → NodeRecord → NodeRecord) (items : List α) (key : PublicKey)
    (hP : P (l.recordOf key)) (hQ : ∀ r, Q r → P r) (hf : ∀ a ∈ items, ∀ r, P r → Q (f a r)) :
    let changed := items.foldl (fun l a => l.changeRecord (node a) (f a)) l
    (key ∈ items.map node → ∃ r, changed.records.get? key = some r ∧ Q r) ∧
      (key ∉ items.map node → changed.records.get? key = l.records.get? key) := by
  induction items generalizing l with
  | nil => exact ⟨nofun, fun _ => rfl⟩
  | cons a items ih =>
      by_cases hkey : key = node a
      · have hchanged : Q ((l.changeRecord (node a) (f a)).recordOf key) := by
          rw [recordOf_changeRecord, if_pos hkey, ← hkey]
          exact hf a List.mem_cons_self _ hP
        obtain ⟨hagain, hlast⟩ :=
          ih (hQ _ hchanged) fun b hb => hf b (List.mem_cons_of_mem a hb)
        refine ⟨fun _ => ?_, fun hnot => absurd (List.mem_cons.2 (.inl hkey)) hnot⟩
        by_cases hlater : key ∈ items.map node
        · exact hagain hlater
        · refine ⟨f a (l.recordOf key), (hlast hlater).trans ?_, hf a List.mem_cons_self _ hP⟩
          rw [get?_changeRecord, if_pos hkey, ← hkey]
      · have hsame : (l.changeRecord (node a) (f a)).recordOf key = l.recordOf key := by
          rw [recordOf_changeRecord, if_neg hkey]
        obtain ⟨hagain, hlast⟩ := ih (hsame ▸ hP) fun b hb => hf b (List.mem_cons_of_mem a hb)
        rw [List.map_cons, List.mem_cons, or_iff_right hkey]
        refine ⟨hagain, fun hnot => (hlast hnot).trans ?_⟩
        rw [get?_changeRecord, if_neg hkey]

/-- The stored part of the record of a node. -/
def storedPart? (l : LiveRegistry) (key : PublicKey) : Option ProofRecord :=
  (l.records.get? key).map (·.toProofRecord)

/-- The times of a node that is noted as put out of service: no proof is left, and the node counts
as seen if it is noted as put back, too. -/
theorem times_of_changeRecords {outcome : Outcome} {time : Nat}
    (htimes : ∀ p ∈ outcome.recommissioned, p.2 = time)
    (hdown : key ∈ outcome.noted .decommission) :
    ∃ p, (l.changeRecords outcome).storedPart? key = some p ∧ p.timestamp = 0 ∧
      p.effectiveTimestamp = if key ∈ outcome.noted .recommission then time else 0 := by
  unfold changeRecords storedPart?
  dsimp only
  generalize outcome.registered.foldl (fun l node => l.changeRecord node fun _ => {}) l = l₁
  -- First the times are cleared.
  obtain ⟨r₂, hr₂, htimestamp₂, heffective₂⟩ := (get?_foldl_changeRecord (l := l₁)
    (P := fun _ => True) (Q := fun r => r.timestamp = 0 ∧ r.effectiveTimestamp = 0)
    (fun node => node) (fun _ r => r.mapStored (·.clearTimes)) outcome.decommissioned key trivial
    (fun _ _ => trivial) fun _ _ _ _ => ⟨rfl, rfl⟩).1 (by rwa [List.map_id'])
  generalize outcome.decommissioned.foldl
    (fun l node => l.changeRecord node fun r => r.mapStored (·.clearTimes)) l₁ = l₂ at hr₂ ⊢
  have hcleared : (l₂.recordOf key).timestamp = 0 := by
    unfold recordOf
    rw [hr₂]
    exact htimestamp₂
  -- Then the node is seen, if it is put back.
  obtain ⟨hseen, hunseen⟩ := get?_foldl_changeRecord (l := l₂) (P := fun r => r.timestamp = 0)
    (Q := fun r => r.timestamp = 0 ∧ r.effectiveTimestamp = time) Prod.fst
    (fun (p : PublicKey × Nat) r => r.recommissioned p.2) outcome.recommissioned key hcleared
    (fun _ hr => hr.1) fun p hp _ hr => ⟨hr, htimes p hp⟩
  by_cases hup : key ∈ outcome.noted .recommission
  · obtain ⟨r, hr, htimestamp, heffective⟩ := hseen hup
    rw [hr, if_pos hup]
    exact ⟨_, rfl, htimestamp, heffective⟩
  · rw [hunseen hup, hr₂, if_neg hup]
    exact ⟨_, rfl, htimestamp₂, heffective₂⟩

/-- Notes on a node that leave the stored part of its record alone leave it alone. -/
theorem storedPart?_noteRegistered {p : ProofRecord} (hp : l.storedPart? key = some p)
    (node : PublicKey) {f : NodeRecord → NodeRecord}
    (hf : ∀ r : NodeRecord, (f r).toProofRecord = r.toProofRecord) :
    (l.noteRegistered node f).storedPart? key = some p := by
  unfold noteRegistered
  split
  · unfold storedPart? at hp ⊢
    rw [get?_changeRecord]
    split
    · rename_i hkey
      obtain ⟨r, hr, rfl⟩ := Option.map_eq_some_iff.1 hp
      rw [← hkey, recordOf, hr, Option.map_some, Option.getD_some, hf]
    · exact hp
  · exact hp

/-- How the validators of a block took part in it is no matter of proofs. -/
theorem storedPart?_notePulse {p : ProofRecord} (hp : l.storedPart? key = some p)
    (s : Surroundings) (block : Block) : (l.notePulse s block).2.storedPart? key = some p := by
  have hsigners : ∀ validators, (l.noteSigners block validators).storedPart? key = some p :=
    fun validators =>
      List.foldlRecOn (motive := fun l : LiveRegistry => l.storedPart? key = some p)
        validators.zipIdx _ hp fun _ hl v _ => storedPart?_noteRegistered hl v.1 fun _ => rfl
  unfold notePulse
  split
  · split
    · exact hp
    · dsimp only
      split
      · exact hp
      · split
        · exact hsigners _
        · exact hsigners _
  · exact hp

/-- What an outcome makes of a record is what the record says after the block. -/
theorem storedPart?_afterBlock {p : ProofRecord} (s : Surroundings) (outcome : Outcome)
    (block : Block) (hp : (l.changeRecords outcome).storedPart? key = some p) :
    ((l.takeEffects s outcome).notePulse s block).2.forgetExpired.storedPart? key = some p := by
  have hrecords : (l.takeEffects s outcome).records = (l.changeRecords outcome).records :=
    (records_saveRecords _ s outcome.touched).1
  refine storedPart?_notePulse ?_ s block
  unfold storedPart? at hp ⊢
  rwa [hrecords]

end LiveRegistry

/-- **Decommissions**: after a block that is taken, the record of a node that one of its
transactions has put out of service says that no proof has come since. It says that the node was
not seen either, unless some transaction of the block has put the node back, be it before or
after; then it was seen when the block was made. So the node needs a fresh proof to be tested
exactly if no transaction of the block has put it back, or the block was made at time zero. -/
theorem LiveRegistry.times_of_decommissioned {l l' : LiveRegistry} {s : Surroundings}
    {block : Block} {txs : List Transaction} {checkpoint : Option Checkpoint}
    (hadd : l.addBlock s block txs checkpoint = (.ok (), l')) {key : PublicKey}
    (hdown : ∃ t ∈ l.head.steps (l.context s l.view) block txs,
      t.ChangesService .decommission key) :
    ∃ r, l'.records.get? key = some r ∧ r.timestamp = 0 ∧
      ((∃ t ∈ l.head.steps (l.context s l.view) block txs, t.ChangesService .recommission key) →
        r.effectiveTimestamp = block.timestamp) ∧
      (r.timestamp = 0 ∧ r.effectiveTimestamp = 0 ↔
        (∀ t ∈ l.head.steps (l.context s l.view) block txs,
          ¬ t.ChangesService .recommission key) ∨ block.timestamp = 0) := by
  obtain ⟨t, ht, hchanges⟩ := hdown
  obtain ⟨outcome, next, hadvance, rfl⟩ :=
    afterBlock_of_addBlock (Registry.hasNodes_of_mem_steps ht hchanges) hadd
  obtain ⟨head, happly, -, -⟩ := advance_eq_ok_iff.1 hadvance
  obtain ⟨p, hp, htimestamp, heffective⟩ := times_of_changeRecords (l := next)
    (fun p hp => Registry.recommissioned_of_apply happly hp)
    ((Registry.mem_noted_iff happly .decommission key).2 ⟨t, ht, hchanges⟩)
  obtain ⟨r, hr, rfl⟩ := Option.map_eq_some_iff.1 (storedPart?_afterBlock s outcome block hp)
  have hup := Registry.mem_noted_iff happly .recommission key
  refine ⟨r, hr, htimestamp, fun hback => ?_, ?_⟩
  · rw [heffective, if_pos (hup.2 hback)]
  · rw [htimestamp, heffective, and_iff_right rfl]
    split
    case isTrue hback =>
      obtain ⟨t, ht, hchanges⟩ := hup.1 hback
      exact ⟨.inr, fun h => h.resolve_left fun hnone => hnone t ht hchanges⟩
    case isFalse hback =>
      exact iff_of_true rfl (.inl fun t ht hchanges => hback (hup.2 ⟨t, ht, hchanges⟩))

/-! ## Out of service, back, and out again -/

namespace LiveRegistry

/-- A registry whose head tests a node in service. -/
def testing : LiveRegistry :=
  { start .bridged ∅ [] with head := testingRegistry.put (.writing 7) { activeSince := 2 } }

/-- The block after that, made at time one hundred. -/
def testedBlock : Block := { Block.plain 4 .v21 with timestamp := 100 }

/-- The changes of the node's state in that block. -/
def backAndForth : List Transaction := [.decommission, .recommission, .decommission].map votedChange

/-- The node ends out of service, and counts as seen when the block was made. -/
theorem times_of_decommissioned_again : ∃ l' info r,
    testing.addBlock .trusting testedBlock backAndForth none = (.ok (), l') ∧
      l'.head.info? (.writing 7) = some info ∧ info.isDecommissioned = true ∧
      l'.records.get? (.writing 7) = some r ∧ r.timestamp = 0 ∧ r.effectiveTimestamp = 100 := by
  obtain ⟨head, outcome, happly, hok, hpast⟩ := addBlock_of_mined testing .trusting backAndForth
    (show testedBlock.IsMined from ⟨rfl, rfl⟩) (by decide) rfl rfl (by decide +kernel)
  obtain ⟨l', hadd⟩ :
      ∃ l', testing.addBlock .trusting testedBlock backAndForth none = (.ok (), l') :=
    ⟨_, Prod.ext hok rfl⟩
  rw [hadd] at hpast
  -- Both kinds of changes are noted, and the entry is that of a node out of service.
  have hnoted := Registry.mem_noted_iff happly
  obtain ⟨-, houtcome, quorums, -, hhead⟩ := Registry.apply_eq_ok_iff.1 happly
  have hdown := (hnoted .decommission (.writing 7)).1 (by rw [houtcome]; decide +kernel)
  have hback := (hnoted .recommission (.writing 7)).1 (by rw [houtcome]; decide +kernel)
  obtain ⟨info, hinfo, hout⟩ := (Option.any_eq_true _ _).1 (show ((testing.head.settled
    (testing.context .trusting testing.view) testedBlock backAndForth).info? (.writing 7)).any
      (·.isDecommissioned) = true by decide +kernel)
  obtain ⟨r, hr, htimestamp, hseen, -⟩ := times_of_decommissioned hadd hdown
  refine ⟨l', info, r, hadd, ?_, hout, hr, htimestamp, hseen hback⟩
  rw [hpast.head, hhead]
  exact hinfo

end LiveRegistry

end StakeRegistry
