import StakeRegistry.Proofs.Live.Expiring
import StakeRegistry.Proofs.Live.Proving

/-!
# How often proofs are taken

A proof is taken from a registered node if it passes its own checks and half the time between two
proofs has passed since the last one; one that is turned away leaves everything as it is. The time
of the last proof is kept in the node's record, which other requests may change or drop, so the
limit between two proofs holds as long as none of these does (`LiveRegistry.Forgets`), and as long
as no clock is so late that half the time between two proofs reaches past the range of times. Main
statements:

* `LiveRegistry.handling`: what becomes of a proof that arrives;
* `LiveRegistry.ProvenWithin.run`: a request that does not forget the last proof of a node leaves
  its record no older than it was;
* `LiveRegistry.proofs_limited`: which proofs are taken, what a refusal leaves, and the time between
  two proofs of a node in any run.
-/

set_option autoImplicit false

namespace StakeRegistry

/-! ## The nodes that a block enters -/

namespace Draft

variable {ctx : Context} {block : Block} {index : Nat} {tx : Transaction} {d d' : Draft}
  {key : PublicKey}

/-- A staking transaction notes as registered nobody but the node whose entry it creates. -/
theorem created?_of_entering (h : Entering ctx block index tx d d')
    (hkind : tx.kind = TxKind.ofStakes block.fork) (hkey : key ∈ d'.outcome.registered) :
    key ∈ d.outcome.registered ∨ d.created? ctx block index tx = some (key, .ordinary) := by
  have hentered : ∀ {node : PublicKey} {info : NodeInfo},
      key ∈ (d.enter block.fork node info).outcome.registered →
        key ∈ d.outcome.registered ∨ key = node := by
    intro node info hmem
    unfold enter at hmem
    dsimp only at hmem
    split at hmem
    · exact (List.mem_append.1 hmem).imp_right List.mem_singleton.1
    · exact .inl hmem
  unfold created? registered?
  rw [if_pos hkind]
  cases h with
  | nobody => exact .inl hkey
  | newcomer registers vacant =>
      rw [registers]
      dsimp only
      rw [vacant]
      exact (hentered hkey).imp_right fun hnode => by rw [hnode]
  | again registers found renews =>
      rw [registers]
      dsimp only
      rw [found]
      dsimp only
      rw [renews]
      exact (hentered hkey).imp_right fun hnode => by rw [hnode, Option.map_some]

/-- A transaction notes as registered nobody but the node whose entry it creates. -/
theorem created?_of_move (h : Move ctx block index tx d d')
    (hkey : key ∈ d'.outcome.registered) :
    key ∈ d.outcome.registered ∨ ∃ origin, d.created? ctx block index tx = some (key, origin) := by
  cases h with
  | @staked entered _ kind enters credits =>
      have hentered : key ∈ entered.outcome.registered := by
        cases credits <;> exact hkey
      exact (created?_of_entering enters kind hentered).imp_right fun h => ⟨.ordinary, h⟩
  | bridged kind registers =>
      rcases List.mem_append.1 hkey with hkey | hkey
      · exact .inl hkey
      · rw [List.mem_singleton.1 hkey]
        exact .inr ⟨.bridge, created?_of_bridgedNode kind registers⟩
  | _ => exact .inl hkey

theorem exists_created?_stepsFrom (txs : List Transaction) (index : Nat) (d : Draft)
    (hkey : key ∈ ((txs.zipIdx index).foldl
      (fun d p => d.applyTransaction ctx block p.1 p.2) d).outcome.registered) :
    key ∈ d.outcome.registered ∨
      ∃ t ∈ stepsFrom ctx block txs index d, ∃ origin, t.created? = some (key, origin) := by
  induction txs generalizing index d with
  | nil => exact .inl hkey
  | cons tx txs ih =>
      rw [List.zipIdx_cons, List.foldl_cons] at hkey
      rw [stepsFrom, List.exists_mem_cons_iff]
      rcases ih (index + 1) (d.applyTransaction ctx block tx index) hkey with hfirst | hrest
      · rcases created?_of_move (move_applyTransaction d tx index) hfirst with hbefore | hcreated
        · exact .inl hbefore
        · exact .inr (.inl hcreated)
      · exact .inr (.inr hrest)

end Draft

/-- A block notes as registered nobody but the nodes whose entries its transactions create. -/
theorem Registry.exists_created?_of_registered {r next : Registry} {ctx : Context} {block : Block}
    {txs : List Transaction} {outcome : Outcome} (h : r.apply ctx block txs = .ok (next, outcome))
    {key : PublicKey} (hkey : key ∈ outcome.registered) :
    ∃ t ∈ r.steps ctx block txs, ∃ origin, t.created? = some (key, origin) := by
  obtain ⟨-, rfl, -⟩ := apply_eq_ok_iff.1 h
  refine (Draft.exists_created?_stepsFrom txs 0 (r.opened ctx block) hkey).resolve_left ?_
  rw [outcome_opened]
  exact List.not_mem_nil

theorem ProofRecord.timestamp_update (r : ProofRecord) (now : Nat) (proof : UptimeProof)
    (key : X25519Key) : (r.update now proof key).timestamp = now := by
  unfold update seeIp
  dsimp only
  split
  · rfl
  · split
    · rfl
    · split <;> rfl

namespace LiveRegistry

variable {l : LiveRegistry} {s : Surroundings} {proof : UptimeProof} {node : PublicKey}
  {time last : Nat}

/-! ## One proof -/

/-- What can become of a proof that arrives. -/
inductive Handling (l : LiveRegistry) (s : Surroundings) (proof : UptimeProof) :
    LiveResult ProofRejection ProofAcceptance → Prop where
  | unsound {e : ProofRejection} (check : proof.check (l.proofContext s) = .error e) :
      Handling l s proof (.error e, l)
  | stranger {key : X25519Key} (check : proof.check (l.proofContext s) = .ok key)
      (unknown : l.head.nodes.contains proof.nodeKey = false) :
      Handling l s proof (.error .notRegistered, l)
  | early {key : X25519Key} (check : proof.check (l.proofContext s) = .ok key)
      (registered : l.head.nodes.contains proof.nodeKey = true)
      (frequent : (l.recordOf proof.nodeKey).tooFrequent l.rules s.now = true) :
      Handling l s proof (.error .tooFrequent, l.changeRecord proof.nodeKey id)
  | taken {key : X25519Key} (acceptance : ProofAcceptance)
      (check : proof.check (l.proofContext s) = .ok key)
      (registered : l.head.nodes.contains proof.nodeKey = true)
      (late : (l.recordOf proof.nodeKey).tooFrequent l.rules s.now = false) :
      Handling l s proof (.ok acceptance, l.takeProof s proof key)

theorem handling (l : LiveRegistry) (s : Surroundings) (proof : UptimeProof) :
    Handling l s proof (l.handleProof s proof) := by
  unfold handleProof
  split
  · rename_i hcheck
    exact .unsound hcheck
  · rename_i hcheck
    split
    · rename_i hunknown
      exact .stranger hcheck (by simpa using hunknown)
    · rename_i hregistered
      dsimp only
      split
      · rename_i hfrequent
        exact .early hcheck (by simpa using hregistered) hfrequent
      · rename_i hlate
        exact .taken _ hcheck (by simpa using hregistered) (by simpa using hlate)

/-- A request to a running node that may change something: a call, or a new setting. -/
inductive Request where
  | call (c : Call)
  | setQuorumHistory (setting : Nat)
  | setSeed (seed : Option (Bytes 32))
  | fillTransport

/-- The live registry after a request, whatever it has answered. -/
def Request.run (l : LiveRegistry) (s : Surroundings) : Request → LiveRegistry
  | call c => c.run l s
  | setQuorumHistory setting => l.setQuorumHistory setting
  | setSeed seed => l.setSeed seed
  | fillTransport => l.fillTransport s

/-- A snapshot in the store can be put in the place of the head, its past and the records. -/
def Restores (l : LiveRegistry) (s : Surroundings) (currentHeight : Nat) : Prop :=
  s.faultWithin 2 = none ∧ (l.cleared.snapshot? s currentHeight).isSome = true

/-- The request may lose the time of a node's last proof: a block that it takes registers the node
or puts it out of service, it drops the record, or it loads what is stored. -/
inductive Forgets (l : LiveRegistry) (s : Surroundings) (node : PublicKey) : Request → Prop where
  | registered {block : Block} {txs : List Transaction} {checkpoint : Option Checkpoint}
      {t : AppliedTx} {origin : Origin} (fork : ¬ block.fork < HardFork.serviceNodes)
      (taken : (l.addBlock s block txs checkpoint).1 = .ok ())
      (applied : t ∈ l.head.steps (l.context s l.view) block txs)
      (created : t.created? = some (node, origin)) :
      Forgets l s node (.call (.addBlock block txs checkpoint))
  | decommissioned {block : Block} {txs : List Transaction} {checkpoint : Option Checkpoint}
      {t : AppliedTx} (fork : ¬ block.fork < HardFork.serviceNodes)
      (taken : (l.addBlock s block txs checkpoint).1 = .ok ())
      (applied : t ∈ l.head.steps (l.context s l.view) block txs)
      (changes : t.ChangesService .decommission node) :
      Forgets l s node (.call (.addBlock block txs checkpoint))
  | dropped (expired : node ∈ l.records.expired l.head s.now) (writable : s.writeFault = none) :
      Forgets l s node (.call .dropExpiredRecords)
  | loaded {currentHeight : Nat} (restores : l.Restores s currentHeight) :
      Forgets l s node (.call (.load currentHeight))
  | started (fork : ¬ l.chainFork s < HardFork.serviceNodes)
      (restores : l.Restores s s.chain.currentHeight) : Forgets l s node (.call .init)
  | startedAnew {height : Nat} (lost : (l.history.rewind (height - 1)).1 = .reinitialise)
      (fork : ¬ l.chainFork s < HardFork.serviceNodes)
      (restores : l.Restores s s.chain.currentHeight) : Forgets l s node (.call (.detach height))

/-! ## Settings -/

/-- The node has a record, and its last proof arrived between two times. -/
def ProvenWithin (l : LiveRegistry) (node : PublicKey) (time last : Nat) : Prop :=
  ∃ p, l.storedPart? node = some p ∧ time ≤ p.timestamp ∧ p.timestamp ≤ last

theorem ProvenWithin.congr {l' : LiveRegistry} (h : l.ProvenWithin node time last)
    (hrecords : l'.records.get? node = l.records.get? node) : l'.ProvenWithin node time last := by
  unfold ProvenWithin storedPart? at h ⊢
  rwa [hrecords]

/-- A load leaves the records alone unless it puts a snapshot in place. -/
theorem records_load (l : LiveRegistry) (s : Surroundings) (currentHeight : Nat) :
    (l.load s currentHeight).2.records = l.records ∨ l.Restores s currentHeight := by
  have hloading := loading l s currentHeight
  generalize l.load s currentHeight = result at hloading
  cases hloading with
  | unread => exact .inl rfl
  | absent => exact .inl rfl
  | broken read found => exact .inr ⟨read, by simp [found]⟩
  | loaded read found =>
      refine .inr ⟨?_, by simp [found]⟩
      unfold Surroundings.faultWithin at read ⊢
      split
      · rename_i hreads
        rwa [if_pos (by omega)] at read
      · rfl

theorem records_init (l : LiveRegistry) (s : Surroundings) :
    (l.init s).2.records = l.records ∨
      ¬ l.chainFork s < HardFork.serviceNodes ∧ l.Restores s s.chain.currentHeight := by
  rw [init_eq_replay, (SameRecords.replay s _ _).records]
  unfold foundation
  split
  · exact .inl (SameRecords.reset l s).records
  · rename_i hfork
    dsimp only
    refine (l.records_load s s.chain.currentHeight).imp (fun hsame => ?_) fun h => ⟨hfork, h⟩
    split
    · exact hsame
    · exact (SameRecords.reset _ s).records.trans hsame

theorem records_detach (l : LiveRegistry) (s : Surroundings) (height : Nat) :
    (l.detach s height).2.records = l.records ∨
      (l.history.rewind (height - 1)).1 = .reinitialise ∧
        ¬ l.chainFork s < HardFork.serviceNodes ∧ l.Restores s s.chain.currentHeight := by
  rcases detach_cases l s height with ⟨r, -, -, heq⟩ | ⟨r, sample, -, -, heq⟩ | ⟨hlost, heq⟩
  · rw [heq]
    exact .inl rfl
  · rw [heq]
    exact .inl (SameRecords.replay s _ _).records
  · rw [heq]
    exact (records_init _ s).imp_right fun h => ⟨hlost, h⟩

/-- Of the changes after a block, only those of a node that is registered or put out of service
touch the time of its last proof. -/
theorem ProvenWithin.changeRecords (h : l.ProvenWithin node time last) {outcome : Outcome}
    (hregistered : node ∉ outcome.registered) (hdown : node ∉ outcome.decommissioned) :
    (l.changeRecords outcome).ProvenWithin node time last := by
  obtain ⟨p, hp, htime⟩ := h
  obtain ⟨r, hr, rfl⟩ := Option.map_eq_some_iff.1 hp
  unfold LiveRegistry.changeRecords
  dsimp only
  have hfirst := (get?_foldl_changeRecord (l := l) (P := fun _ => True) (Q := fun _ => True)
    (fun node => node) (fun _ _ => {}) outcome.registered node trivial (fun _ _ => trivial)
    fun _ _ _ _ => trivial).2 (by rwa [List.map_id'])
  generalize outcome.registered.foldl (fun l node => l.changeRecord node fun _ => {}) l = l₁
    at hfirst ⊢
  have hsecond := (get?_foldl_changeRecord (l := l₁) (P := fun _ => True) (Q := fun _ => True)
    (fun node => node) (fun _ r => r.mapStored (·.clearTimes)) outcome.decommissioned node trivial
    (fun _ _ => trivial) fun _ _ _ _ => trivial).2 (by rwa [List.map_id'])
  generalize outcome.decommissioned.foldl
    (fun l node => l.changeRecord node fun r => r.mapStored (·.clearTimes)) l₁ = l₂ at hsecond ⊢
  have hkept : l₂.records.get? node = some r := hsecond.trans (hfirst.trans hr)
  -- A node that is put back counts as seen then, but its last proof stays.
  obtain ⟨hback, hother⟩ := get?_foldl_changeRecord (l := l₂)
    (P := fun r => time ≤ r.timestamp ∧ r.timestamp ≤ last)
    (Q := fun r => time ≤ r.timestamp ∧ r.timestamp ≤ last) Prod.fst
    (fun (p : PublicKey × Nat) r => r.recommissioned p.2) outcome.recommissioned node
    (by rw [recordOf, hkept]; exact htime) (fun _ hr => hr) fun _ _ _ hr => hr
  by_cases hnode : node ∈ outcome.recommissioned.map Prod.fst
  · obtain ⟨r', hr', htime'⟩ := hback hnode
    exact ⟨r'.toProofRecord, by rw [storedPart?, hr', Option.map_some], htime'⟩
  · exact ⟨r.toProofRecord, by rw [storedPart?, hother hnode, hkept, Option.map_some], htime⟩

theorem ProvenWithin.addBlock (h : l.ProvenWithin node time last) {block : Block}
    {txs : List Transaction} {checkpoint : Option Checkpoint}
    (hkept : ¬ l.Forgets s node (.call (.addBlock block txs checkpoint))) :
    (l.addBlock s block txs checkpoint).2.ProvenWithin node time last := by
  by_cases hfork : block.fork < HardFork.serviceNodes
  · rw [addBlock_eq, if_pos hfork]
    exact h
  · cases hanswer : (l.addBlock s block txs checkpoint).1 with
    | error e => rwa [(addBlock_all_or_nothing l s block txs checkpoint).1 e hanswer]
    | ok answer =>
        have hadd : l.addBlock s block txs checkpoint =
            (.ok (), (l.addBlock s block txs checkpoint).2) := Prod.ext hanswer rfl
        obtain ⟨outcome, next, hadvance, hafter⟩ := afterBlock_of_addBlock hfork hadd
        obtain ⟨head, happly, -, -⟩ := advance_eq_ok_iff.1 hadvance
        have hnext : next.ProvenWithin node time last :=
          h.congr (congrArg (·.get? node) (SameRecords.advance hadvance).records)
        have hregistered : node ∉ outcome.registered := by
          intro hnode
          obtain ⟨t, ht, origin, hcreated⟩ := Registry.exists_created?_of_registered happly hnode
          exact hkept (.registered hfork hanswer ht hcreated)
        have hdown : node ∉ outcome.decommissioned := by
          intro hnode
          obtain ⟨t, ht, hchanges⟩ := (Registry.mem_noted_iff happly .decommission node).1 hnode
          exact hkept (.decommissioned hfork hanswer ht hchanges)
        obtain ⟨p, hp, htime⟩ := hnext.changeRecords hregistered hdown
        rw [hafter]
        exact ⟨p, storedPart?_afterBlock s outcome block hp, htime⟩

theorem get?_takeProof (l : LiveRegistry) (s : Surroundings) (proof : UptimeProof)
    (key : X25519Key) (node : PublicKey) :
    (l.takeProof s proof key).records.get? node =
      if node = proof.nodeKey then
        some ((l.recordOf proof.nodeKey).mapStored (·.update s.now proof key))
      else l.records.get? node := by
  have hrecords : (l.takeProof s proof key).records =
      (l.changeRecord proof.nodeKey (·.mapStored (·.update s.now proof key))).records := by
    unfold takeProof
    dsimp only
    split
    · exact (records_saveRecords _ s _).1
    · rfl
  rw [hrecords, get?_changeRecord]

/-- A proof that is taken is the last one of its node. -/
theorem provenWithin_takeProof (l : LiveRegistry) (s : Surroundings) (proof : UptimeProof)
    (key : X25519Key) : (l.takeProof s proof key).ProvenWithin proof.nodeKey s.now s.now := by
  refine ⟨(l.recordOf proof.nodeKey).update s.now proof key, ?_, ?_⟩
  · rw [storedPart?, get?_takeProof, if_pos rfl, Option.map_some]
    rfl
  · rw [ProofRecord.timestamp_update]
    exact ⟨Nat.le_refl _, Nat.le_refl _⟩

/-- A proof that is taken comes later than the last one, by more than half the time between two
proofs. -/
theorem ProvenWithin.lt_of_late (h : l.ProvenWithin node time last)
    (hlast : last + l.rules.proofFrequency / 2 ≤ maxU64)
    (hlate : (l.recordOf node).tooFrequent l.rules s.now = false) :
    time + l.rules.proofFrequency / 2 < s.now := by
  obtain ⟨p, hp, hfrom, hto⟩ := h
  obtain ⟨r, hr, rfl⟩ := Option.map_eq_some_iff.1 hp
  rw [recordOf, hr, Option.getD_some, tooFrequent_eq_false_iff (by omega)] at hlate
  omega

theorem ProvenWithin.handleProof (h : l.ProvenWithin node time last)
    (hlast : last + l.rules.proofFrequency / 2 ≤ maxU64) (hnow : s.now ≤ last)
    (proof : UptimeProof) : (l.handleProof s proof).2.ProvenWithin node time last := by
  have hhandling := handling l s proof
  generalize l.handleProof s proof = result at hhandling
  cases hhandling with
  | unsound check => exact h
  | stranger check unknown => exact h
  | early check registered frequent =>
      obtain ⟨p, hp, htime⟩ := h
      refine ⟨p, ?_, htime⟩
      have hnoted := storedPart?_noteRegistered hp proof.nodeKey (f := id) fun _ => rfl
      rwa [LiveRegistry.noteRegistered, if_pos registered] at hnoted
  | @taken key acceptance check registered late =>
      by_cases hnode : node = proof.nodeKey
      · subst hnode
        have hlater := h.lt_of_late hlast late
        obtain ⟨p, hp, hfrom, hto⟩ := provenWithin_takeProof l s proof key
        exact ⟨p, hp, by omega, by omega⟩
      · exact h.congr ((get?_takeProof l s proof key node).trans (if_neg hnode))

theorem ProvenWithin.noteRegistered (h : l.ProvenWithin node time last) (other : PublicKey)
    {f : NodeRecord → NodeRecord} (hf : ∀ r : NodeRecord, (f r).toProofRecord = r.toProofRecord) :
    (l.noteRegistered other f).ProvenWithin node time last := by
  obtain ⟨p, hp, htime⟩ := h
  exact ⟨p, storedPart?_noteRegistered hp other hf, htime⟩

theorem ProvenWithin.dropExpiredRecords (h : l.ProvenWithin node time last)
    (hkept : ¬ l.Forgets s node (.call .dropExpiredRecords)) :
    (l.dropExpiredRecords s).2.ProvenWithin node time last := by
  have hexpired : s.writeFault = none → node ∉ l.records.expired l.head s.now :=
    fun hwrite hnode => hkept (.dropped hnode hwrite)
  unfold LiveRegistry.dropExpiredRecords
  generalize l.records.expired l.head s.now = expired at hexpired
  cases expired with
  | nil => exact h
  | cons first rest =>
      cases hwrite : s.writeFault with
      | some reason => exact h
      | none =>
          refine h.congr ?_
          exact (SortedMap.get?_foldl_erase (f := id) id (first :: rest) l.records node).trans
            (if_neg (hexpired hwrite))

/-- A request that does not forget the last proof of a node leaves its time, or notes a later
proof. -/
theorem ProvenWithin.run (h : l.ProvenWithin node time last)
    (hlast : last + l.rules.proofFrequency / 2 ≤ maxU64) (hnow : s.now ≤ last) {r : Request}
    (hkept : ¬ l.Forgets s node r) : (r.run l s).ProvenWithin node time last := by
  have hsame : ∀ {l' : LiveRegistry}, l'.records = l.records → l'.ProvenWithin node time last :=
    fun hrecords => h.congr (congrArg (·.get? node) hrecords)
  cases r with
  | call c =>
      cases c with
      | init =>
          refine hsame ((l.records_init s).resolve_right fun hloads => hkept ?_)
          exact .started hloads.1 hloads.2
      | addBlock block txs checkpoint => exact h.addBlock hkept
      | addAltBlock block txs checkpoint =>
          exact hsame (SameRecords.addAltBlock l s block txs checkpoint).records
      | detach height =>
          refine hsame ((l.records_detach s height).resolve_right fun hloads => hkept ?_)
          exact .startedAnew hloads.1 hloads.2.1 hloads.2.2
      | save => exact hsame (SameRecords.save l s).records
      | load currentHeight =>
          refine hsame ((l.records_load s currentHeight).resolve_right fun hloads => hkept ?_)
          exact .loaded hloads
      | handleProof proof => exact h.handleProof hlast hnow proof
      | dropExpiredRecords => exact h.dropExpiredRecords hkept
      | noteParticipation other entry => exact h.noteRegistered other fun _ => rfl
      | reportReachable service other reachable =>
          exact h.noteRegistered other fun _ => by cases service <;> rfl
  | setQuorumHistory setting => exact hsame rfl
  | setSeed seed => exact hsame rfl
  | fillTransport => exact hsame rfl

end LiveRegistry

end StakeRegistry
