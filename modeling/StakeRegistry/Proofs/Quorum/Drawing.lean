import StakeRegistry.Proofs.Random.Shuffle
import StakeRegistry.Proofs.Registry.Standing
import StakeRegistry.Proofs.Transition.Step

/-!
# Quorums are drawn, and drawn well

The candidates of a quorum are put into a random order that contains each of them once
(`shuffledIndexes_perm`), and the members are taken from the front of it. So every position that
is looked up exists, and a draw succeeds whatever the random words are. Main statements:

* `drawObligations_eq_ok`: an obligations quorum has the members that its size asks for, all
  different, and its validators are active (`Quorum.IsObligations`);
* `drawCheckpointing_eq_ok`, `drawBlink_eq_ok`: so do the quorums of checkpoints and of blink
  transactions, or they are empty;
* `isPulse_of_pulseQuorum`: in a complete Pulse quorum the producer is none of the validators.
-/

set_option autoImplicit false

namespace StakeRegistry

/-! ## Members of each kind of quorum -/

/-- An obligations quorum of active and decommissioned nodes: it has ten validators, or all active
nodes if there are fewer; one in a hundred of the other nodes, and at least fifty of them if there
are so many, are its workers. -/
structure Quorum.IsObligations (q : Quorum) (active decommissioned : List PublicKey) : Prop where
  validators_length : q.validators.length = min obligationsValidators active.length
  workers_length : q.workers.length =
    min (active.length + decommissioned.length - q.validators.length)
      (max testedMinimum
        ((active.length + decommissioned.length - q.validators.length) / testedFraction))
  /-- No node is a member twice, neither on one side nor on both. -/
  distinct : (q.validators ++ q.workers).Nodup
  validators_active : ∀ key ∈ q.validators, key ∈ active
  workers_known : ∀ key ∈ q.workers, key ∈ active ∨ key ∈ decommissioned

/-- A checkpointing quorum: twenty different nodes, or nobody. -/
structure Quorum.IsCheckpointing (q : Quorum) (active decommissioned : List PublicKey) :
    Prop where
  validators_length : q.validators = [] ∨ q.validators.length = checkpointQuorumSize
  distinct : q.validators.Nodup
  validators_known : ∀ key ∈ q.validators, key ∈ active ∨ key ∈ decommissioned
  workers : q.workers = []

/-- A blink quorum: seven to ten different active nodes, or nobody. -/
structure Quorum.IsBlink (q : Quorum) (active : List PublicKey) : Prop where
  validators_length : q.validators = [] ∨
    blinkMinimum ≤ q.validators.length ∧ q.validators.length ≤ blinkQuorumSize
  distinct : q.validators.Nodup
  validators_active : ∀ key ∈ q.validators, key ∈ active
  workers : q.workers = []

/-- A Pulse quorum: one producer and eleven different active nodes, the producer not among
them. -/
structure Quorum.IsPulse (q : Quorum) (active : List PublicKey) : Prop where
  workers_length : q.workers.length = 1
  validators_length : q.validators.length = pulseValidators
  distinct : q.validators.Nodup
  validators_active : ∀ key ∈ q.validators, key ∈ active
  producer : ∀ key ∈ q.workers, key ∉ q.validators

/-! ## Random order -/

/-- The order holds every position once, whether it comes of one shuffle or of two. -/
theorem shuffledIndexes_perm (fork : HardFork) (size : Nat) (hash : Hash) (kind : QuorumKind)
    (first limit : Nat) :
    (shuffledIndexes fork size hash kind first limit).Perm (List.range size) := by
  unfold shuffledIndexes
  dsimp only
  generalize quorumGenerator fork hash kind = g
  split
  · generalize hinner : (shuffle ((List.range size).take limit) g).1 ++
      (List.range size).drop limit = inner
    -- The first shuffle stays below the limit, the second takes what is left of it along.
    have hfirst : inner.Perm (List.range size) := by
      rw [← hinner]
      have hprefix := (shuffle_perm ((List.range size).take limit) g).append_right
        ((List.range size).drop limit)
      rwa [List.take_append_drop] at hprefix
    have hsecond : (inner.take first ++ (shuffle (inner.drop first) g).1).Perm inner := by
      have hrest := (shuffle_perm (inner.drop first) g).append_left (inner.take first)
      rwa [List.take_append_drop] at hrest
    exact hsecond.trans hfirst
  · exact shuffle_perm _ g

/-- The first places hold positions below the limit, if there are as many. -/
theorem lt_of_mem_take_shuffledIndexes (fork : HardFork) (hash : Hash) (kind : QuorumKind)
    {size first limit : Nat} (hfirst : first ≤ limit) (hlimit : limit ≤ size) :
    ∀ i ∈ (shuffledIndexes fork size hash kind first limit).take first, i < limit := by
  intro i hi
  by_cases hsplit : 0 < first ∧ first < size ∧ 0 < limit ∧ limit < size
  · unfold shuffledIndexes at hi
    dsimp only at hi
    rw [if_pos hsplit] at hi
    generalize quorumGenerator fork hash kind = g at hi
    have hfront := shuffle_perm ((List.range size).take limit) g
    rw [List.take_range, Nat.min_eq_left hlimit] at hi hfront
    generalize (shuffle (List.range limit) g).1 = front at hi hfront
    have hlength : front.length = limit := by rw [hfront.length_eq, List.length_range]
    -- The second shuffle starts behind the first places, which are those of the first shuffle.
    have hplaces : ∀ behind : List Nat, (front ++ behind).take first = front.take first :=
      fun behind => List.take_append_of_le_length (by omega)
    have htaken : (front.take first).length = first := by
      rw [List.length_take]
      omega
    rw [hplaces, List.take_append_of_le_length (by omega), List.take_of_length_le (by omega)] at hi
    exact List.mem_range.1 (hfront.mem_iff.1 (List.mem_of_mem_take hi))
  · have hmem : i < size := by
      have := (shuffledIndexes_perm fork size hash kind first limit).mem_iff.1
        (List.mem_of_mem_take hi)
      exact List.mem_range.1 this
    -- Without two shuffles there are no first places or every position is below the limit.
    by_cases hzero : first = 0
    · subst hzero
      cases hi
    · omega

/-! ## Candidates in an order -/

namespace NodeList

/-- The candidates at some positions. -/
def placed (candidates : NodeList) (indexes : List Nat) : List PublicKey :=
  indexes.map fun i => candidates.keys.getD i 0

theorem length_placed (candidates : NodeList) (indexes : List Nat) :
    (candidates.placed indexes).length = indexes.length := List.length_map _

theorem placed_append_indexes (candidates : NodeList) (indexes indexes' : List Nat) :
    candidates.placed (indexes ++ indexes') =
      candidates.placed indexes ++ candidates.placed indexes' := List.map_append

theorem getD_keys {candidates : NodeList} {i : Nat} (h : i < candidates.length) :
    candidates.keys.getD i 0 = candidates[i].1 := by
  simp [keys, h]

variable {candidates : NodeList} {indexes : List Nat}

/-- A key is found at one position only. -/
theorem eq_of_key_eq (hdistinct : candidates.keys.Nodup) {i j : Nat} (hi : i < candidates.length)
    (hj : j < candidates.length) (h : candidates[i].1 = candidates[j].1) : i = j := by
  rw [← length_keys] at hi hj
  have hsame : candidates.keys[i] = candidates.keys[j] := by
    simpa [keys] using h
  exact (List.getElem_inj hdistinct).1 hsame

theorem mem_keys_of_mem_placed (h : ∀ i ∈ indexes, i < candidates.length) {key : PublicKey}
    (hkey : key ∈ candidates.placed indexes) : key ∈ candidates.keys := by
  obtain ⟨i, hi, rfl⟩ := List.mem_map.1 hkey
  rw [getD_keys (h i hi)]
  exact List.mem_map.2 ⟨_, List.getElem_mem (h i hi), rfl⟩

/-- Different positions hold different candidates. -/
theorem nodup_placed (h : ∀ i ∈ indexes, i < candidates.length) (hindexes : indexes.Nodup)
    (hdistinct : candidates.keys.Nodup) : (candidates.placed indexes).Nodup := by
  refine List.pairwise_map.2 (hindexes.imp_of_mem fun {i j} hi hj hne heq => hne ?_)
  have hlow : ∀ i ∈ indexes, i < candidates.keys.length := fun i hi => by
    rw [length_keys]
    exact h i hi
  rw [List.getD_eq_getElem?_getD, List.getD_eq_getElem?_getD,
    List.getElem?_eq_getElem (hlow i hi), List.getElem?_eq_getElem (hlow j hj)] at heq
  exact (List.getElem_inj hdistinct).1 heq

/-- Positions of the first candidates are not moved by others behind them. -/
theorem placed_append (others : NodeList) (h : ∀ i ∈ indexes, i < candidates.length) :
    placed (candidates ++ others) indexes = candidates.placed indexes := by
  refine List.map_congr_left fun i hi => ?_
  have hlow := h i hi
  rw [getD_keys (by rw [List.length_append]; omega), getD_keys hlow, List.getElem_append_left hlow]

end NodeList

theorem mapM_eq_ok_map {ε α β : Type} {f : α → Except ε β} {g : α → β} {l : List α}
    (h : ∀ a ∈ l, f a = .ok (g a)) : l.mapM f = .ok (l.map g) := by
  induction l with
  | nil => rfl
  | cons a rest ih =>
      rw [List.mapM_cons, h a (by simp), ih fun b hb => h b (by simp [hb])]
      rfl

theorem pick_eq_ok {candidates : NodeList} {index : Nat} (kind : QuorumKind)
    (h : index < candidates.length) :
    pick candidates kind index = .ok (candidates.keys.getD index 0) := by
  unfold pick
  rw [List.getElem?_eq_getElem h, NodeList.getD_keys h]

/-- Two lists are looked up like one. -/
theorem pickSpanning_eq_ok {active others : NodeList} {index : Nat} (kind : QuorumKind)
    (h : index < active.length + others.length) :
    pickSpanning active others kind index =
      .ok ((NodeList.keys (active ++ others)).getD index 0) := by
  have hall : index < (active ++ others).length := by rwa [List.length_append]
  unfold pickSpanning
  rw [NodeList.getD_keys hall]
  split
  · rename_i hlow
    rw [pick_eq_ok kind hlow, NodeList.getD_keys hlow, List.getElem_append_left hlow]
  · rename_i hhigh
    rw [pick_eq_ok kind (by omega), NodeList.getD_keys (by omega),
      List.getElem_append_right (by omega)]

/-- Looking up positions of candidates that exist answers these candidates. -/
theorem mapM_pick_eq_ok {candidates : NodeList} {indexes : List Nat} (kind : QuorumKind)
    (h : ∀ i ∈ indexes, i < candidates.length) :
    indexes.mapM (pick candidates kind) = .ok (candidates.placed indexes) :=
  mapM_eq_ok_map fun i hi => pick_eq_ok kind (h i hi)

theorem mapM_pickSpanning_eq_ok {active others : NodeList} {indexes : List Nat}
    (kind : QuorumKind) (h : ∀ i ∈ indexes, i < active.length + others.length) :
    indexes.mapM (pickSpanning active others kind) =
      .ok (NodeList.placed (active ++ others) indexes) :=
  mapM_eq_ok_map fun i hi => pickSpanning_eq_ok kind (h i hi)

/-! ## The draws -/

section Draws

variable (fork : HardFork) (hash : Hash) {active decommissioned : NodeList}

/-- An obligations quorum can always be drawn. -/
theorem drawObligations_eq_ok (hdistinct : (NodeList.keys (active ++ decommissioned)).Nodup) :
    ∃ q, drawObligations fork hash active decommissioned = .ok q ∧
      q.IsObligations active.keys decommissioned.keys := by
  unfold drawObligations
  dsimp only
  generalize hvalidators : min active.length obligationsValidators = validators
  generalize hworkers : min (active.length + decommissioned.length - validators)
    (max testedMinimum ((active.length + decommissioned.length - validators) / testedFraction))
      = workers
  have hperm := shuffledIndexes_perm fork (active.length + decommissioned.length) hash
    .obligations validators active.length
  have hfront := lt_of_mem_take_shuffledIndexes fork hash .obligations
    (show validators ≤ active.length by omega)
    (show active.length ≤ active.length + decommissioned.length by omega)
  generalize shuffledIndexes fork (active.length + decommissioned.length) hash .obligations
    validators active.length = indexes at hperm hfront
  have hbelow : ∀ i ∈ indexes, i < active.length + decommissioned.length := fun i hi =>
    List.mem_range.1 (hperm.mem_iff.1 hi)
  have hlength : indexes.length = active.length + decommissioned.length := by
    rw [hperm.length_eq, List.length_range]
  have hbehind : ∀ i ∈ (indexes.drop validators).take workers,
      i < active.length + decommissioned.length := fun i hi =>
    hbelow i (List.mem_of_mem_drop (List.mem_of_mem_take hi))
  rw [mapM_pick_eq_ok .obligations hfront, mapM_pickSpanning_eq_ok .obligations hbehind]
  refine ⟨_, rfl, ?_⟩
  constructor
  case validators_length =>
    rw [NodeList.length_placed, NodeList.length_keys, List.length_take]
    omega
  case workers_length =>
    rw [NodeList.length_placed, NodeList.length_placed, NodeList.length_keys,
      NodeList.length_keys, List.length_take, List.length_take, List.length_drop]
    rw [show min validators indexes.length = validators by omega, hworkers]
    omega
  case distinct =>
    -- The members of both sides stand one after the other in the order.
    dsimp only
    rw [← NodeList.placed_append decommissioned hfront, ← NodeList.placed_append_indexes,
      ← List.take_add]
    refine NodeList.nodup_placed (fun i hi => ?_) ?_ hdistinct
    · rw [List.length_append]
      exact hbelow i (List.mem_of_mem_take hi)
    · exact (hperm.nodup_iff.2 List.nodup_range).sublist (List.take_sublist _ _)
  case validators_active => exact fun key hkey => NodeList.mem_keys_of_mem_placed hfront hkey
  case workers_known =>
    intro key hkey
    rw [← List.mem_append, ← NodeList.keys_append]
    refine NodeList.mem_keys_of_mem_placed (fun i hi => ?_) hkey
    rw [List.length_append]
    exact hbehind i hi

/-- A checkpointing quorum can always be drawn. -/
theorem drawCheckpointing_eq_ok (network : Network) (height : Nat)
    (hdistinct : (NodeList.keys (active ++ decommissioned)).Nodup) :
    ∃ q, drawCheckpointing fork network height hash active decommissioned = .ok q ∧
      q.IsCheckpointing active.keys decommissioned.keys := by
  unfold drawCheckpointing
  dsimp only
  generalize htotal : (if network = .testnet ∧ height < testnetCheckpointCutoff then
    active.length + decommissioned.length else active.length) = total
  have hbound : total ≤ active.length + decommissioned.length := by
    rw [← htotal]
    split <;> omega
  split
  case isTrue hmany =>
    have hperm := shuffledIndexes_perm fork total hash .checkpointing 0 0
    generalize shuffledIndexes fork total hash .checkpointing 0 0 = indexes at hperm
    have hbelow : ∀ i ∈ indexes.take checkpointQuorumSize,
        i < active.length + decommissioned.length := fun i hi => by
      have := List.mem_range.1 (hperm.mem_iff.1 (List.mem_of_mem_take hi))
      omega
    rw [mapM_pickSpanning_eq_ok .checkpointing hbelow]
    rw [← List.length_append] at hbelow
    refine ⟨_, rfl, Or.inr ?_, NodeList.nodup_placed hbelow ?_ hdistinct, fun key hkey => ?_, rfl⟩
    · rw [NodeList.length_placed, List.length_take, hperm.length_eq, List.length_range]
      omega
    · exact (hperm.nodup_iff.2 List.nodup_range).sublist (List.take_sublist _ _)
    · rw [← List.mem_append, ← NodeList.keys_append]
      exact NodeList.mem_keys_of_mem_placed hbelow hkey
  case isFalse => exact ⟨⟨[], []⟩, rfl, Or.inl rfl, List.nodup_nil, by simp, rfl⟩

/-- Twenty active nodes are enough for a checkpointing quorum with members. -/
theorem validators_ne_nil_of_drawCheckpointing {network : Network} {height : Nat} {q : Quorum}
    (hmany : checkpointQuorumSize ≤ active.length)
    (h : drawCheckpointing fork network height hash active decommissioned = .ok q) :
    q.validators ≠ [] := by
  unfold drawCheckpointing at h
  dsimp only at h
  generalize htotal : (if network = .testnet ∧ height < testnetCheckpointCutoff then
    active.length + decommissioned.length else active.length) = total at h
  have hbound : checkpointQuorumSize ≤ total := by
    rw [← htotal]
    split <;> omega
  rw [if_pos hbound] at h
  have hperm := shuffledIndexes_perm fork total hash .checkpointing 0 0
  generalize shuffledIndexes fork total hash .checkpointing 0 0 = indexes at h hperm
  obtain ⟨validators, hpicked, h⟩ := bind_eq_ok_iff.1 h
  cases h
  -- The first index gives the first validator.
  obtain ⟨i, rest, rfl⟩ : ∃ i rest, indexes = i :: rest := by
    refine List.exists_cons_of_length_pos ?_
    rw [hperm.length_eq, List.length_range]
    exact Nat.lt_of_lt_of_le (by decide) hbound
  rw [checkpointQuorumSize, List.take_succ_cons, List.mapM_cons] at hpicked
  obtain ⟨key, -, hpicked⟩ := bind_eq_ok_iff.1 hpicked
  obtain ⟨keys, -, hpicked⟩ := bind_eq_ok_iff.1 hpicked
  cases hpicked
  exact List.cons_ne_nil key keys

/-- A blink quorum can always be drawn. -/
theorem drawBlink_eq_ok (height : Nat) (hdistinct : active.keys.Nodup) :
    ∃ q, drawBlink fork height hash active = .ok q ∧ q.IsBlink active.keys := by
  unfold drawBlink
  dsimp only
  generalize heligible : (active.filter fun n => blinkEligible height n.2) = eligible
  have hsublist : eligible.Sublist active := by
    rw [← heligible]
    exact List.filter_sublist
  split
  case isTrue hmany =>
    have hperm := shuffledIndexes_perm fork eligible.length hash .blink 0 0
    generalize shuffledIndexes fork eligible.length hash .blink 0 0 = indexes at hperm
    have hbelow : ∀ i ∈ indexes.take blinkQuorumSize, i < eligible.length := fun i hi =>
      List.mem_range.1 (hperm.mem_iff.1 (List.mem_of_mem_take hi))
    have hkeys := NodeList.keys_sublist hsublist
    rw [mapM_pick_eq_ok .blink hbelow]
    refine ⟨_, rfl, Or.inr ?_, NodeList.nodup_placed hbelow ?_ (hdistinct.sublist hkeys),
      fun key hkey => hkeys.subset (NodeList.mem_keys_of_mem_placed hbelow hkey), rfl⟩
    · unfold blinkMinimum blinkQuorumSize at *
      rw [NodeList.length_placed, List.length_take, hperm.length_eq, List.length_range]
      omega
    · exact (hperm.nodup_iff.2 List.nodup_range).sublist (List.take_sublist _ _)
  case isFalse => exact ⟨⟨[], []⟩, rfl, Or.inl rfl, List.nodup_nil, by simp, rfl⟩

end Draws

/-! ## Pulse quorums -/

theorem drawValidators_perm (fork : HardFork) (half slot : Nat) (entropy : List Hash)
    (candidates : NodeList) :
    (drawValidators fork half slot entropy candidates).Perm candidates := by
  induction entropy generalizing slot candidates with
  | nil => exact .refl _
  | cons e rest ih =>
      unfold drawValidators
      exact (ih _ _).trans (swapItems_perm _ _ _)

/-- The producer is none of the candidates that are left to validate. -/
theorem drawProducer_eq_some {fork : HardFork} {leader : PublicKey} {e : Hash} {round : Nat}
    {candidates rest : NodeList} {producer : PublicKey} (hdistinct : candidates.keys.Nodup)
    (hleader : round = 0 → leader ∉ candidates.keys)
    (h : drawProducer fork leader e round candidates = some (producer, rest)) :
    rest.Sublist candidates ∧ producer ∉ rest.keys := by
  unfold drawProducer at h
  split at h
  case isTrue hround =>
    cases h
    exact ⟨.refl _, hleader hround⟩
  case isFalse =>
    obtain ⟨node, hnode, h⟩ := Option.map_eq_some_iff.1 h
    cases h
    obtain ⟨hlow, rfl⟩ := List.getElem?_eq_some_iff.1 hnode
    refine ⟨List.eraseIdx_sublist _ _, fun hmem => ?_⟩
    -- Another position would hold the producer's key as well.
    obtain ⟨other, hother, hkey⟩ := List.mem_map.1 hmem
    obtain ⟨i, hi, hne, rfl⟩ := List.mem_eraseIdx_iff_getElem.1 hother
    exact hne (NodeList.eq_of_key_eq hdistinct hi hlow hkey)

/-- The candidates of a round, in the order of their turns. -/
def pulseCandidates (leader : PublicKey) (active : NodeList) (round : Nat) : NodeList :=
  (active.filter fun n => round > 0 || n.1 != leader).mergeSort fun a b => (pulseOrder a b).isLE

theorem pulseCandidates_perm (leader : PublicKey) (active : NodeList) (round : Nat) :
    (pulseCandidates leader active round).Perm
      (active.filter fun n => round > 0 || n.1 != leader) := List.mergeSort_perm _ _

theorem keys_pulseCandidates {leader : PublicKey} {active : NodeList} {round : Nat}
    {key : PublicKey} (h : key ∈ (pulseCandidates leader active round).keys) :
    key ∈ active.keys ∧ (round = 0 → key ≠ leader) := by
  obtain ⟨node, hnode, rfl⟩ := List.mem_map.1 h
  obtain ⟨hmem, htest⟩ := List.mem_filter.1 ((pulseCandidates_perm _ _ _).mem_iff.1 hnode)
  refine ⟨List.mem_map.2 ⟨node, hmem, rfl⟩, ?_⟩
  rintro rfl
  simpa using htest

theorem nodup_pulseCandidates {active : NodeList} (hdistinct : active.keys.Nodup)
    (leader : PublicKey) (round : Nat) : (pulseCandidates leader active round).keys.Nodup :=
  (NodeList.keys_perm (pulseCandidates_perm leader active round)).nodup_iff.2
    (hdistinct.sublist (NodeList.keys_sublist List.filter_sublist))

/-- What a complete Pulse quorum was drawn from. -/
theorem exists_draw_of_complete {minNodes : Nat} {leader : PublicKey} {fork : HardFork}
    {active : NodeList} {entropy : List Hash} {round : Nat}
    (h : (pulseQuorum minNodes leader fork active entropy round).isCompletePulse = true) :
    leader ≠ 0 ∧ HardFork.pulse ≤ fork ∧ minNodes ≤ active.length ∧
      ∃ first rest producer others, entropy = first :: rest ∧ rest.length = pulseValidators ∧
        drawProducer fork leader first round (pulseCandidates leader active round) =
          some (producer, others) ∧
        pulseValidators ≤ others.length ∧
        pulseQuorum minNodes leader fork active entropy round =
          ⟨((drawValidators fork ((others.length - 1) / 2) 0 rest others).take
            pulseValidators).map (·.1), [producer]⟩ := by
  unfold pulseQuorum at h ⊢
  split at h
  · cases h
  · rename_i first rest
    split at h
    · cases h
    · rename_i hguards
      obtain ⟨hmany, hguard⟩ := not_or.1 hguards
      obtain ⟨hleader, hguard⟩ := not_or.1 hguard
      obtain ⟨hfork, hrest⟩ := not_or.1 hguard
      dsimp only at h ⊢
      split at h
      · cases h
      · rename_i producer others hproducer
        split at h
        · cases h
        · rename_i henough
          refine ⟨hleader, HardFork.not_lt.1 hfork, Nat.not_lt.1 hmany, first, rest, producer,
            others, rfl, Decidable.not_not.1 hrest, hproducer, Nat.not_lt.1 henough, ?_⟩
          rw [if_neg hguards, if_neg henough]

/-- A complete Pulse quorum has different validators, all of them active, and a producer that is
none of them. -/
theorem isPulse_of_pulseQuorum {minNodes : Nat} {leader : PublicKey} {fork : HardFork}
    {active : NodeList} {entropy : List Hash} {round : Nat} (hdistinct : active.keys.Nodup)
    (hcomplete : (pulseQuorum minNodes leader fork active entropy round).isCompletePulse = true) :
    (pulseQuorum minNodes leader fork active entropy round).IsPulse active.keys := by
  have hsizes := hcomplete
  rw [Quorum.isCompletePulse, Bool.and_eq_true, beq_iff_eq, beq_iff_eq] at hsizes
  obtain ⟨-, -, -, first, rest, producer, others, -, -, hproducer, -, hdrawn⟩ :=
    exists_draw_of_complete hcomplete
  obtain ⟨hothers, hnot⟩ := drawProducer_eq_some (nodup_pulseCandidates hdistinct leader round)
    (fun hround hmem => (keys_pulseCandidates hmem).2 hround rfl) hproducer
  -- The validators are some of the other candidates, in the order in which they were drawn.
  have hperm := NodeList.keys_perm (drawValidators_perm fork ((others.length - 1) / 2) 0 rest
    others)
  have htaken : (((drawValidators fork ((others.length - 1) / 2) 0 rest others).take
      pulseValidators).map (·.1)).Sublist (NodeList.keys (drawValidators fork
        ((others.length - 1) / 2) 0 rest others)) := (List.take_sublist _ _).map _
  have hmem := fun key hkey => hperm.mem_iff.1 (htaken.subset (a := key) hkey)
  have hkeys := NodeList.keys_sublist hothers
  rw [hdrawn] at hsizes ⊢
  refine ⟨hsizes.1, hsizes.2, ?_, fun key hkey => ?_, fun key hkey hvalidator => ?_⟩
  · exact (hperm.nodup_iff.2 ((nodup_pulseCandidates hdistinct leader round).sublist
      hkeys)).sublist htaken
  · exact (keys_pulseCandidates (hkeys.subset (hmem key hkey))).1
  · rw [List.mem_singleton.1 hkey] at hvalidator
    exact hnot (hmem _ hvalidator)

end StakeRegistry
