import StakeRegistry.Proofs.Quorum.Reach

/-!
# Who produces a later round

When the leader fails to produce a block, a producer is drawn for the next round from the active
nodes in the order of their turns. The leader stands among them: it is not even looked at
(`pulseQuorum_congr_leader`). So a draw that hits the leader's place makes it the producer again,
and whatever the entropy there is one active node for which this happens
(`producer_eq_leader_iff_of_complete`).
-/

set_option autoImplicit false

namespace StakeRegistry

/-! ## Places in the order of turns -/

theorem pulseOrder_eq_lt {a b : PublicKey × NodeInfo} (hle : (pulseOrder a b).isLE = true)
    (hne : a.1 ≠ b.1) : pulseOrder a b = .lt := by
  cases horder : pulseOrder a b with
  | lt => rfl
  | eq => exact absurd (key_eq_of_pulseOrder horder) hne
  | gt =>
      rw [horder] at hle
      cases hle

/-- How many nodes come before a node in the order of turns. -/
def pulseRank (active : NodeList) (n : PublicKey × NodeInfo) : Nat :=
  active.countP fun m => pulseOrder m n == .lt

/-- In strict order every node is at its rank. -/
theorem pulseRank_of_pairwise {nodes : NodeList}
    (hsorted : nodes.Pairwise fun a b => pulseOrder a b = .lt) {i : Nat}
    {n : PublicKey × NodeInfo} (hn : nodes[i]? = some n) : pulseRank nodes n = i := by
  unfold pulseRank
  induction nodes generalizing i with
  | nil => cases hn
  | cons m nodes ih =>
      obtain ⟨hfirst, hsorted⟩ := List.pairwise_cons.1 hsorted
      cases i with
      | zero =>
          obtain rfl : m = n := Option.some.inj hn
          refine List.countP_eq_zero.2 (List.forall_mem_cons.2 ⟨?_, fun other hother => ?_⟩)
          · have hself : pulseOrder m m = .eq := Std.ReflCmp.compare_self
            rw [hself]
            decide
          · have hafter : pulseOrder other m = .gt :=
              Std.OrientedCmp.gt_of_lt (hfirst other hother)
            rw [hafter]
            decide
      | succ i =>
          rw [List.getElem?_cons_succ] at hn
          rw [List.countP_cons_of_pos (by simp [hfirst n (List.mem_of_getElem? hn)]), ih hsorted hn]

section Rank

variable {active : NodeList} (hdistinct : active.keys.Nodup)

include hdistinct

/-- The candidates of a later round are the active nodes, each at its rank. -/
theorem getElem?_pulseCandidates_iff {round : Nat} (hround : 0 < round) (leader : PublicKey)
    {i : Nat} {n : PublicKey × NodeInfo} :
    (pulseCandidates leader active round)[i]? = some n ↔ n ∈ active ∧ pulseRank active n = i := by
  have hall := pulseCandidates_perm_active hround leader active
  have hsorted : (pulseCandidates leader active round).Pairwise
      fun a b => pulseOrder a b = .lt :=
    (pairwise_mergeSort_pulseOrder _).imp₂ (fun _ _ => pulseOrder_eq_lt)
      (List.pairwise_map.1 (nodup_pulseCandidates hdistinct leader round))
  have hrank : pulseRank active n = pulseRank (pulseCandidates leader active round) n :=
    (hall.countP_eq _).symm
  rw [hrank]
  constructor
  · exact fun hn => ⟨hall.mem_iff.1 (List.mem_of_getElem? hn), pulseRank_of_pairwise hsorted hn⟩
  · rintro ⟨hmem, rfl⟩
    obtain ⟨i, hi⟩ := List.getElem?_of_mem (hall.mem_iff.2 hmem)
    rw [pulseRank_of_pairwise hsorted hi, hi]

/-- Of the active nodes, the one at the drawn rank produces a later round. -/
theorem producer_eq_key_iff {fork : HardFork} {leader producer : PublicKey} {e : Hash}
    {round : Nat} {others : NodeList} (hround : 0 < round)
    (h : drawProducer fork leader e round (pulseCandidates leader active round) =
      some (producer, others)) :
    ∀ n ∈ active, producer = n.1 ↔
      pulseRank active n = (drawBelow active.length (quorumGenerator fork e .pulse)).1 := by
  unfold drawProducer at h
  rw [if_neg (Nat.ne_of_gt hround),
    (pulseCandidates_perm_active hround leader active).length_eq] at h
  obtain ⟨drawn, hdrawn, h⟩ := Option.map_eq_some_iff.1 h
  cases h
  obtain ⟨hmem, hrank⟩ := (getElem?_pulseCandidates_iff hdistinct hround leader).1 hdrawn
  intro n hn
  constructor
  · intro hkey
    rw [← List.inj_on_of_nodup_map hdistinct hmem hn hkey, hrank]
  · intro hplace
    have hn := (getElem?_pulseCandidates_iff hdistinct hround leader).2 ⟨hn, hplace⟩
    cases hdrawn.symm.trans hn
    rfl

end Rank

/-! ## The leader in later rounds -/

section Later

variable {minNodes : Nat} {leader : PublicKey} {fork : HardFork} {active : NodeList}
  {entropy : List Hash} {round : Nat}

/-- The quorum of a later round is the same for every leader. -/
theorem pulseQuorum_congr_leader (hround : 0 < round) {other : PublicKey} (hleader : leader ≠ 0)
    (hother : other ≠ 0) :
    pulseQuorum minNodes other fork active entropy round =
      pulseQuorum minNodes leader fork active entropy round := by
  cases entropy with
  | nil => rfl
  | cons first rest =>
      simp [pulseQuorum, drawProducer, hround, hleader, hother, Nat.ne_of_gt hround]

/-- **The leader may be drawn again**: a complete quorum of a later round has an active producer,
and this is the leader exactly if the leader is active and the draw hits its rank. Under any other
leader the quorum would have been the same, also under the one that is drawn. -/
theorem producer_eq_leader_iff_of_complete (hdistinct : active.keys.Nodup) (hround : 0 < round)
    (h : (pulseQuorum minNodes leader fork active entropy round).isCompletePulse = true) :
    ∃ first rest producer, entropy = first :: rest ∧
      (pulseQuorum minNodes leader fork active entropy round).workers = [producer] ∧
      producer ∈ active.keys ∧
      (producer = leader ↔ ∃ n ∈ active, n.1 = leader ∧
        pulseRank active n = (drawBelow active.length (quorumGenerator fork first .pulse)).1) ∧
      ∀ other ≠ 0, pulseQuorum minNodes other fork active entropy round =
        pulseQuorum minNodes leader fork active entropy round := by
  obtain ⟨hnonzero, -, -, first, rest, producer, others, hentropy, -, hdrawn, -, hquorum⟩ :=
    exists_draw_of_complete h
  have hactive := (producer_of_drawProducer hdrawn).2 (Nat.ne_of_gt hround)
  have hproducer := producer_eq_key_iff hdistinct hround hdrawn
  refine ⟨first, rest, producer, hentropy, by rw [hquorum], hactive, ?_,
    fun other hother => pulseQuorum_congr_leader hround hnonzero hother⟩
  constructor
  · rintro rfl
    obtain ⟨n, hn, rfl⟩ := List.mem_map.1 hactive
    exact ⟨n, hn, rfl, (hproducer n hn).1 rfl⟩
  · rintro ⟨n, hn, rfl, hrank⟩
    exact (hproducer n hn).2 hrank

end Later

/-- Thirteen nodes. -/
def thirteen : NodeList := (List.range 13).map fun i => (.writing (i + 1), default)

/-- One of thirteen nodes leads a block whose second round it produces. -/
theorem exists_redrawn_thirteen : ∃ leader ∈ thirteen.keys,
    (pulseQuorum 12 leader .v16 thirteen (List.replicate 12 0) 1).isCompletePulse = true ∧
      (pulseQuorum 12 leader .v16 thirteen (List.replicate 12 0) 1).workers = [leader] := by
  have hdistinct : thirteen.keys.Nodup := by decide +kernel
  have hcomplete : (pulseQuorum 12 (.writing 1) .v16 thirteen
      (List.replicate 12 0) 1).isCompletePulse = true :=
    (isCompletePulse_pulseQuorum_iff hdistinct (by decide +kernel)).2 (by decide +kernel)
  obtain ⟨-, -, producer, -, hworkers, hactive, -, hsame⟩ :=
    producer_eq_leader_iff_of_complete hdistinct (by decide) hcomplete
  have hnonzero : ∀ key ∈ thirteen.keys, key ≠ 0 := by decide +kernel
  refine ⟨producer, hactive, ?_⟩
  rw [hsame producer (hnonzero producer hactive)]
  exact ⟨hcomplete, hworkers⟩

end StakeRegistry
