import Mathlib.Logic.Relation
import StakeRegistry.Proofs.Swarm.Surplus

/-!
# Rebalancing comes to rest

The loops of a rebalancing as a system that takes one step after another, in which any order of
the unassigned nodes and any member of a swarm may be drawn (`SwarmMap.Step`). What stands
between a draw and the next is accounted for at every stage (`Stage.Sound`), and each step lowers
the stage's rank: founding a swarm takes its members off the surplus, mending one leaves fewer
that are too small. Main statements:

* `SwarmMap.Step.rank_lt`: no run goes on for ever;
* `SwarmMap.Stage.Sound.step`, `SwarmMap.Stage.Sound.progress`: what every stage keeps, and that
  only the last one is final;
* `SwarmMap.reaches_rebalance`: a seed's rebalancing is one of the runs;
* `SwarmMap.rebalance_settles`: whatever is drawn, the swarms come to rest with every node kept.
-/

set_option autoImplicit false

namespace StakeRegistry

open scoped List

namespace SwarmMap

variable {start swarms : SwarmMap} {id target : Nat} {taken nodes ms : List PublicKey}

/-! ## The system -/

/-- Where a rebalancing stands. -/
inductive Stage where
  /-- Unassigned nodes have not joined a swarm yet. -/
  | waiting (swarms : SwarmMap)
  /-- Swarms are founded while the surplus suffices. -/
  | founding (swarms : SwarmMap)
  /-- Members of a new swarm are taken out of others. -/
  | taking (id : Nat) (taken : List PublicKey) (swarms : SwarmMap)
  /-- Swarms that are too small are mended. -/
  | mending (swarms : SwarmMap)
  /-- One that is too small is filled. -/
  | filling (target : Nat) (swarms : SwarmMap)
  | done (swarms : SwarmMap)

/-- One step of a rebalancing: a test of a loop, or a round of an inner one. -/
inductive Step : Stage → Stage → Prop where
  | assign {swarms : SwarmMap} {nodes : List PublicKey}
      (order : nodes.Perm ((swarms.get? unassignedSwarm).getD [])) :
      Step (.waiting swarms) (.founding (swarms.joinedBy nodes))
  | founded {swarms : SwarmMap} (few : swarms.surplus < idealSwarmSize) :
      Step (.founding swarms) (.mending swarms)
  | crowded {swarms : SwarmMap} (many : idealSwarmSize ≤ swarms.surplus)
      (used : swarms.freshId ∈ swarms.keys) :
      Step (.founding swarms) (.mending swarms)
  | found {swarms : SwarmMap} (many : idealSwarmSize ≤ swarms.surplus)
      (free : swarms.freshId ∉ swarms.keys) :
      Step (.founding swarms) (.taking swarms.freshId [] swarms)
  | take {swarms : SwarmMap} {id donor : Nat} {taken members : List PublicKey}
      (short : taken.length < idealSwarmSize) (largest : swarms.largest? = some (donor, members))
      (i : Nat) (hi : i < members.length) :
      Step (.taking id taken swarms)
        (.taking id (taken ++ [members[i]]) (swarms.insert donor (members.eraseIdx i)))
  | exhausted {swarms : SwarmMap} {id : Nat} {taken : List PublicKey}
      (short : taken.length < idealSwarmSize)
      (nobody : ∀ donor members, swarms.largest? = some (donor, members) → members = []) :
      Step (.taking id taken swarms) (.founding (swarms.insert id taken))
  | complete {swarms : SwarmMap} {id : Nat} {taken : List PublicKey}
      (enough : idealSwarmSize ≤ taken.length) :
      Step (.taking id taken swarms) (.founding (swarms.insert id taken))
  | mended {swarms : SwarmMap} (rest : swarms.size ≤ 1 ∨ swarms.undersized? = none) :
      Step (.mending swarms) (.done swarms)
  | mend {swarms : SwarmMap} {target : Nat} {members : List PublicKey}
      (several : 1 < swarms.size) (small : swarms.undersized? = some (target, members)) :
      Step (.mending swarms) (.filling target swarms)
  | lend {swarms : SwarmMap} {target donor : Nat} {members : List PublicKey}
      (small : ((swarms.get? target).getD []).length < minSwarmSize)
      (spare : swarms.donor? target = some (donor, members)) (i : Nat) (hi : i < members.length) :
      Step (.filling target swarms)
        (.filling target ((swarms.insert donor (members.eraseIdx i)).insert target
          ((swarms.get? target).getD [] ++ [members[i]])))
  | filled {swarms : SwarmMap} {target : Nat}
      (enough : minSwarmSize ≤ ((swarms.get? target).getD []).length) :
      Step (.filling target swarms) (.mending swarms)
  | dissolve {swarms : SwarmMap} {target : Nat}
      (small : ((swarms.get? target).getD []).length < minSwarmSize)
      (nobody : swarms.donor? target = none) :
      Step (.filling target swarms) (.mending (swarms.dissolve target))

/-- A stage that steps lead to. -/
abbrev Reaches : Stage → Stage → Prop := Relation.ReflTransGen Step

/-! ## What is accounted for -/

/-- The nodes of `start` are in swarms, but for those that have been taken out. -/
structure Keeps (start : SwarmMap) (taken : List PublicKey) (swarms : SwarmMap) : Prop where
  members : (taken ++ swarms.members).Perm start.members
  numbered : swarms.Numbered

namespace Keeps

variable {swarms' : SwarmMap}

theorem take (h : Keeps start taken swarms) (hspread : Spread swarms' nodes swarms) :
    Keeps start (taken ++ nodes) swarms' := by
  refine ⟨?_, fun id hid => h.numbered id (hspread.keys ▸ hid)⟩
  rw [List.append_assoc]
  exact (hspread.members.symm.append_left taken).trans h.members

theorem found (h : Keeps start taken swarms) (hid : id < unassignedSwarm)
    (hfree : id ∉ swarms.keys) : Keeps start [] (swarms.insert id taken) := by
  constructor
  · have hinserted := members_insert swarms id taken
    rw [erase_of_not_mem hfree] at hinserted
    exact hinserted.trans h.members
  · intro id' hid'
    rcases mem_keys_insert.1 hid' with rfl | hid'
    · exact hid
    · exact h.numbered id' hid'

theorem same (h : Keeps start taken swarms) (hmembers : swarms'.members.Perm swarms.members)
    (hkeys : swarms'.keys ⊆ swarms.keys) : Keeps start taken swarms' :=
  ⟨(hmembers.append_left taken).trans h.members, fun id hid => h.numbered id (hkeys hid)⟩

end Keeps

/-- Every node has a swarm, there is one swarm at most or none is too small, and the surplus
does not suffice to found another. -/
structure AtRest (swarms : SwarmMap) : Prop where
  numbered : swarms.Numbered
  balanced : swarms.Balanced
  surplus : swarms.surplus < idealSwarmSize

namespace Stage

/-- What is known of a stage: nobody is lost, and the numbers of swarms and of members that new
ones could be made of leave room below the number of unassigned nodes. -/
def Sound (start : SwarmMap) : Stage → Prop
  | waiting swarms => swarms = start ∧ (∀ id ∈ start.keys, id ≤ unassignedSwarm) ∧
      start.size + start.members.length < 2 ^ 63
  | founding swarms => Keeps start [] swarms ∧ swarms.size + swarms.surplus ≤ 2 ^ 63
  | taking id taken swarms => Keeps start taken swarms ∧ id < unassignedSwarm ∧ id ∉ swarms.keys ∧
      swarms.size + (swarms.surplus + taken.length) ≤ 2 ^ 63 ∧
      taken.length ≤ idealSwarmSize ∧ idealSwarmSize ≤ swarms.surplus + taken.length
  | mending swarms => Keeps start [] swarms ∧ swarms.surplus < idealSwarmSize
  | filling target swarms => Keeps start [] swarms ∧ swarms.surplus < idealSwarmSize ∧
      1 < swarms.size ∧ target ∈ swarms.keys
  | done swarms => Keeps start [] swarms ∧ swarms.AtRest

/-- How far a stage is from the end: by its place in the order of the loops, then by what the
outer loop works off, the surplus or the swarms that are too small, then by the inner loop. -/
def rank : Stage → Nat × Nat × Nat
  | waiting _ => (2, 0, 0)
  | founding swarms => (1, swarms.surplus, idealSwarmSize + 1)
  | taking _ taken swarms => (1, swarms.surplus + taken.length, idealSwarmSize - taken.length)
  | mending swarms => (0, swarms.undersized.length, minSwarmSize + 2)
  | filling target swarms => (0, (swarms.undersized.erase target).length + 1,
      minSwarmSize - ((swarms.get? target).getD []).length + 1)
  | done _ => (0, 0, 0)

end Stage

/-! ## One step -/

theorem size_joinedBy_le (swarms : SwarmMap) (nodes : List PublicKey) :
    SortedMap.size (swarms.joinedBy nodes) ≤ swarms.size + 1 := by
  obtain ⟨base, hspread, -, hkeys⟩ := spread_joinedBy swarms nodes
  have hbase := (List.subperm_of_subset base.nodup_keys hkeys).length_le
  have herased : SortedMap.size (swarms.erase unassignedSwarm) ≤ swarms.size :=
    List.length_filter_le _ _
  rw [List.length_cons, ← size_eq_length_keys, ← size_eq_length_keys] at hbase
  rw [size_eq_length_keys, hspread.keys, ← size_eq_length_keys]
  omega

theorem mem_undersized_of_small (htarget : target ∈ swarms.keys)
    (hsmall : ((swarms.get? target).getD []).length < minSwarmSize) :
    target ∈ swarms.undersized := by
  obtain ⟨ms, hms⟩ := SortedMap.mem_keys.1 htarget
  rw [hms, Option.getD_some] at hsmall
  exact mem_undersized.2 ⟨ms, hms, hsmall⟩

theorem mem_undersized_of_undersized? (h : swarms.undersized? = some (target, ms)) :
    target ∈ swarms.undersized := by
  have hmem := List.mem_filter.1 (List.minOn?_mem h)
  exact mem_undersized.2 ⟨ms, SortedMap.get?_eq_some_iff.2 hmem.1, by simpa using hmem.2⟩

theorem balanced_of_undersized? (h : swarms.size ≤ 1 ∨ swarms.undersized? = none) :
    swarms.Balanced := by
  refine h.imp_right fun hnone s hs => ?_
  simpa using List.filter_eq_nil_iff.1 (minOn?_eq_none_iff.1 hnone) s hs

theorem lends_of_donor? {donor : Nat} (h : swarms.donor? target = some (donor, ms)) {i : Nat}
    (hi : i < ms.length) :
    Lends swarms target ((swarms.insert donor (ms.eraseIdx i)).insert target
      ((swarms.get? target).getD [] ++ [ms[i]])) := by
  have hmem := List.mem_filter.1 (List.maxOn?_mem h)
  simp only [Bool.and_eq_true, bne_iff_ne, decide_eq_true_eq] at hmem
  exact .one hmem.2.1 (SortedMap.get?_eq_some_iff.2 hmem.1) hmem.2.2
    (List.getElem_cons_eraseIdx_perm hi).symm

theorem spread_take {donor : Nat} (h : swarms.largest? = some (donor, ms)) {i : Nat}
    (hi : i < ms.length) : Spread (swarms.insert donor (ms.eraseIdx i)) [ms[i]] swarms :=
  spread_of_perm (SortedMap.get?_eq_some_iff.2 (List.maxOn?_mem h))
    (List.getElem_cons_eraseIdx_perm hi).symm

theorem length_eraseIdx_succ {α : Type} {l : List α} {i : Nat} (hi : i < l.length) :
    (l.eraseIdx i).length + 1 = l.length := by
  rw [List.length_eraseIdx_of_lt hi]
  omega

/-- While members are taken out, there is a swarm left to take another from. -/
theorem Stage.Sound.exists_donor (h : (Stage.taking id taken swarms).Sound start)
    (short : taken.length < idealSwarmSize) :
    0 < swarms.surplus ∧
      ∃ donor members, swarms.largest? = some (donor, members) ∧ members ≠ [] := by
  obtain ⟨-, -, -, -, -, hmany⟩ := h
  have hsurplus : 0 < swarms.surplus := by omega
  exact ⟨hsurplus, exists_largest hsurplus⟩

/-- A step keeps what is known of a stage. -/
theorem Stage.Sound.step {stage next : Stage} (h : stage.Sound start) (hstep : Step stage next) :
    next.Sound start := by
  cases hstep with
  | @assign swarms nodes order =>
      obtain ⟨rfl, hids, hfew⟩ := h
      have hmembers := members_joinedBy order
      have hsize := size_joinedBy_le swarms nodes
      have hsurplus := surplus_le_length_members (swarms.joinedBy nodes)
      rw [hmembers.length_eq] at hsurplus
      exact ⟨⟨hmembers, numbered_joinedBy hids nodes⟩, by omega⟩
  | founded few => exact ⟨h.1, few⟩
  | crowded many used =>
      -- This cannot be: there are fewer swarms than numbers.
      refine absurd used (freshId_not_mem_keys h.1.numbered ?_)
      have hroom := h.2
      unfold unassignedSwarm maxU64
      omega
  | found many free =>
      exact ⟨h.1, freshId_lt h.1.numbered, free, h.2, Nat.zero_le _, many⟩
  | @take swarms id donor taken members short largest i hi =>
      have hsurplus := surplus_take (h.exists_donor short).1 largest (length_eraseIdx_succ hi)
      obtain ⟨hkeeps, hid, hfree, hroom, -, hmany⟩ := h
      have hspread := spread_take largest hi
      have hsize : SortedMap.size (swarms.insert donor (members.eraseIdx i)) = swarms.size := by
        rw [size_eq_length_keys, ← hspread.keys, ← size_eq_length_keys]
      refine ⟨hkeeps.take hspread, hid, hspread.keys ▸ hfree, ?_, ?_, ?_⟩ <;>
        rw [List.length_append, List.length_singleton] <;> omega
  | @exhausted swarms id taken short nobody =>
      obtain ⟨-, donor, members, hlargest, hsome⟩ := h.exists_donor short
      exact absurd (nobody donor members hlargest) hsome
  | @complete swarms id taken enough =>
      obtain ⟨hkeeps, hid, hfree, hroom, hlength, -⟩ := h
      have hsurplus := surplus_found hfree hlength
      have hsize := size_found hfree taken
      have hsome : 0 < idealSwarmSize := by decide
      exact ⟨hkeeps.found hid hfree, by omega⟩
  | mended rest => exact ⟨h.1, h.1.numbered, balanced_of_undersized? rest, h.2⟩
  | mend several small =>
      exact ⟨h.1, h.2, several, mem_keys_of_undersized (mem_undersized_of_undersized? small)⟩
  | lend small spare i hi =>
      obtain ⟨hkeeps, hsurplus, hsize, htarget⟩ := h
      have hlends := lends_of_donor? spare hi
      have hspread := hlends.spread htarget
      refine ⟨hkeeps.same hspread.members (hspread.keys ▸ List.Subset.refl _), ?_, ?_, ?_⟩
      · exact Nat.lt_of_le_of_lt
          (surplus_lends hlends (mem_undersized_of_small htarget small)) hsurplus
      · rwa [size_eq_length_keys, hspread.keys, ← size_eq_length_keys]
      · rwa [hspread.keys]
  | filled enough => exact ⟨h.1, h.2.1⟩
  | dissolve small nobody =>
      obtain ⟨hkeeps, -, hsize, htarget⟩ := h
      refine ⟨hkeeps.same (members_dissolve hsize _) fun id hid => ?_,
        surplus_dissolve_lt (mem_undersized_of_small htarget small) nobody⟩
      rw [keys_dissolve hsize] at hid
      exact (mem_keys_erase.1 hid).2

/-- The inner loop gets on while the outer one loses no ground. -/
theorem lex_of_inner {phase outer outer' inner inner' : Nat} (houter : outer' ≤ outer)
    (hinner : inner' < inner) :
    Prod.Lex (· < ·) (Prod.Lex (· < ·) (· < ·)) (phase, outer', inner') (phase, outer, inner) := by
  rcases Nat.lt_or_eq_of_le houter with hlt | rfl
  · exact .right _ (.left _ _ hlt)
  · exact .right _ (.right _ hinner)

theorem length_undersized_erase_le {swarms' : SwarmMap}
    (h : ∀ id ∈ swarms'.undersized, id ≠ target → id ∈ swarms.undersized) :
    (swarms'.undersized.erase target).length ≤ (swarms.undersized.erase target).length := by
  refine (List.subperm_of_subset (swarms'.nodup_undersized.erase _) fun id hid => ?_).length_le
  rw [swarms'.nodup_undersized.mem_erase_iff] at hid
  exact swarms.nodup_undersized.mem_erase_iff.2 ⟨hid.1, h id hid.2 hid.1⟩

/-- Each step lowers the rank of a stage. -/
theorem Step.rank_lt {stage next : Stage} (hstep : Step stage next) (h : stage.Sound start) :
    Prod.Lex (· < ·) (Prod.Lex (· < ·) (· < ·)) next.rank stage.rank := by
  cases hstep with
  | assign order => exact .left _ _ (by decide)
  | founded few => exact .left _ _ (by decide)
  | crowded many used => exact .left _ _ (by decide)
  | found many free => exact lex_of_inner (Nat.le_refl _) (Nat.lt_succ_self _)
  | @take swarms id donor taken members short largest i hi =>
      have hsurplus := surplus_take (h.exists_donor short).1 largest (length_eraseIdx_succ hi)
      have hlength : (taken ++ [members[i]]).length = taken.length + 1 := List.length_append
      exact lex_of_inner (by omega) (by omega)
  | @exhausted swarms id taken short nobody =>
      obtain ⟨-, donor, members, hlargest, hsome⟩ := h.exists_donor short
      exact absurd (nobody donor members hlargest) hsome
  | @complete swarms id taken enough =>
      obtain ⟨-, -, hfree, -, hlength, -⟩ := h
      have hsurplus := surplus_found hfree hlength
      have hsome : 0 < idealSwarmSize := by decide
      exact .right _ (.left _ _ (by omega))
  | mended rest => exact lex_of_inner (Nat.zero_le _) (Nat.succ_pos _)
  | @mend swarms target members several small =>
      have hlength := List.length_erase_of_mem (mem_undersized_of_undersized? small)
      have hsome := List.length_pos_of_mem (mem_undersized_of_undersized? small)
      exact lex_of_inner (by omega) (by omega)
  | @lend swarms target donor members small spare i hi =>
      -- The donor stays large enough, so that no swarm but the target can be too small now.
      have hothers := length_undersized_erase_le fun id hid hne =>
        (lends_of_donor? spare hi).undersized hid hne
      refine lex_of_inner (Nat.succ_le_succ hothers) ?_
      rw [SortedMap.get?_insert_self, Option.getD_some, List.length_append, List.length_singleton]
      omega
  | @filled swarms target enough =>
      have hlarge : target ∉ swarms.undersized := fun hsmall => by
        obtain ⟨ms, hms, hlength⟩ := mem_undersized.1 hsmall
        rw [hms, Option.getD_some] at enough
        omega
      refine .right _ (.left _ _ ?_)
      rw [List.erase_of_not_mem hlarge]
      exact Nat.lt_succ_self _
  | @dissolve swarms target small nobody =>
      -- The others grow, and the swarm that was too small is there no more.
      have hgone : target ∉ (swarms.dissolve target).undersized := fun hid =>
        (undersized_dissolve hid).1 rfl
      have hothers : ((swarms.dissolve target).undersized.erase target).length ≤
          (swarms.undersized.erase target).length :=
        length_undersized_erase_le fun id hid _ => (undersized_dissolve hid).2
      rw [List.erase_of_not_mem hgone] at hothers
      exact .right _ (.left _ _ (Nat.lt_succ_of_le hothers))

/-- Only the last stage is final. -/
theorem Stage.Sound.progress {stage : Stage} (h : stage.Sound start) :
    (∃ next, Step stage next) ∨ ∃ swarms, stage = .done swarms := by
  cases stage with
  | waiting swarms => exact .inl ⟨_, .assign (.refl _)⟩
  | founding swarms =>
      refine .inl ?_
      rcases Nat.lt_or_ge swarms.surplus idealSwarmSize with few | many
      · exact ⟨_, .founded few⟩
      · by_cases hfresh : swarms.freshId ∈ swarms.keys
        · exact ⟨_, .crowded many hfresh⟩
        · exact ⟨_, .found many hfresh⟩
  | taking id taken swarms =>
      refine .inl ?_
      rcases Nat.lt_or_ge taken.length idealSwarmSize with short | enough
      · obtain ⟨-, donor, members, hlargest, hsome⟩ := h.exists_donor short
        exact ⟨_, .take short hlargest 0 (List.length_pos_iff.2 hsome)⟩
      · exact ⟨_, .complete enough⟩
  | mending swarms =>
      refine .inl ?_
      rcases Nat.lt_or_ge 1 swarms.size with several | hone
      · cases hsmall : swarms.undersized? with
        | none => exact ⟨_, .mended (.inr hsmall)⟩
        | some s => exact ⟨_, .mend several hsmall⟩
      · exact ⟨_, .mended (.inl hone)⟩
  | filling target swarms =>
      refine .inl ?_
      rcases Nat.lt_or_ge ((swarms.get? target).getD []).length minSwarmSize with small | enough
      · cases hdonor : swarms.donor? target with
        | none => exact ⟨_, .dissolve small hdonor⟩
        | some donor =>
            have hspare := (List.mem_filter.1 (List.maxOn?_mem hdonor)).2
            simp only [Bool.and_eq_true, decide_eq_true_eq] at hspare
            exact ⟨_, .lend small hdonor 0 (Nat.zero_lt_of_lt hspare.2)⟩
      · exact ⟨_, .filled enough⟩
  | done swarms => exact .inr ⟨swarms, rfl⟩

/-! ## Every run -/

theorem Stage.Sound.reaches {stage later : Stage} (h : stage.Sound start)
    (hrun : Reaches stage later) : later.Sound start := by
  induction hrun with
  | refl => exact h
  | tail _ hstep ih => exact ih.step hstep

/-- No run from a sound stage goes on for ever. -/
theorem Stage.Sound.exists_stop {run : Nat → Stage} (h : (run 0).Sound start) :
    ∃ n, ¬ Step (run n) (run (n + 1)) := by
  by_contra hendless
  have hstep : ∀ n, Step (run n) (run (n + 1)) := fun n =>
    Classical.not_not.1 fun hstop => hendless ⟨n, hstop⟩
  have hsound : ∀ n, (run n).Sound start := fun n => by
    induction n with
    | zero => exact h
    | succ n ih => exact ih.step (hstep n)
  have hwf : WellFounded (Prod.Lex (· < ·) (Prod.Lex (· < ·) (· < ·)) :
      Nat × Nat × Nat → Nat × Nat × Nat → Prop) :=
    WellFounded.prod_lex Nat.lt_wfRel.wf (WellFounded.prod_lex Nat.lt_wfRel.wf Nat.lt_wfRel.wf)
  -- No rank is reached, by induction on it: the next stage would reach a lower one.
  refine hwf.induction (C := fun rank => ∀ n, (run n).rank ≠ rank) (run 0).rank ?_ 0 rfl
  rintro _ ih n rfl
  exact ih _ ((hstep n).rank_lt (hsound n)) (n + 1) rfl

/-! ## A seed's run -/

/-- A random member is taken by its place, if there is one. -/
theorem takeRandom_cases (ms : List PublicKey) (g : Twister) :
    (∃ g', ms = [] ∧ takeRandom ms g = (none, g')) ∨
      ∃ i g', ∃ hi : i < ms.length, takeRandom ms g = (some (ms[i], ms.eraseIdx i), g') := by
  unfold takeRandom
  by_cases hnil : ms = []
  · exact .inl ⟨g, hnil, by simp [hnil]⟩
  · have hi := drawBelow_lt (List.length_pos_iff.2 hnil) g
    refine .inr ⟨_, (drawBelow ms.length g).2, hi, ?_⟩
    rw [if_neg (by simpa using hnil)]
    simp [List.getElem?_eq_getElem hi]

/-- Nodes taken from the largest swarms are all of the surplus, as long as it suffices. -/
theorem surplus_takeFromLargest (count : Nat) (swarms : SwarmMap) (g : Twister)
    (h : count ≤ swarms.surplus) :
    (takeFromLargest count swarms g).1.length = count ∧
      surplus (takeFromLargest count swarms g).2.1 + count = swarms.surplus := by
  induction count generalizing swarms g with
  | zero => exact ⟨rfl, rfl⟩
  | succ count ih =>
      obtain ⟨donor, members, hlargest, hsome⟩ := exists_largest (Nat.zero_lt_of_lt h)
      rcases takeRandom_cases members g with ⟨g', hnil, -⟩ | ⟨i, g', hi, heq⟩
      · exact absurd hnil hsome
      · have htaken := surplus_take (Nat.zero_lt_of_lt h) hlargest (length_eraseIdx_succ hi)
        obtain ⟨hlength, hsurplus⟩ := ih (swarms.insert donor (members.eraseIdx i)) g' (by omega)
        rw [takeFromLargest, hlargest]
        dsimp only
        rw [heq]
        dsimp only
        exact ⟨by rw [List.length_cons, hlength], by rw [← htaken, ← hsurplus, Nat.add_assoc]⟩

theorem reaches_takeFromLargest (id count : Nat) (taken : List PublicKey) (swarms : SwarmMap)
    (g : Twister) (h : taken.length + count = idealSwarmSize) :
    Reaches (.taking id taken swarms)
      (.founding ((takeFromLargest count swarms g).2.1.insert id
        (taken ++ (takeFromLargest count swarms g).1))) := by
  induction count generalizing swarms taken g with
  | zero =>
      refine .single ?_
      rw [takeFromLargest, List.append_nil]
      exact .complete (Nat.le_of_eq h.symm)
  | succ count ih =>
      have hshort : taken.length < idealSwarmSize := by omega
      rw [takeFromLargest]
      cases hlargest : swarms.largest? with
      | none =>
          refine .single ?_
          rw [List.append_nil]
          exact .exhausted hshort fun donor members hsome => by rw [hlargest] at hsome; cases hsome
      | some s =>
          obtain ⟨donor, members⟩ := s
          dsimp only
          rcases takeRandom_cases members g with ⟨g', hnil, heq⟩ | ⟨i, g', hi, heq⟩
          · rw [heq, List.append_nil]
            refine .single (.exhausted hshort fun donor' members' hsome => ?_)
            rw [hlargest] at hsome
            cases hsome
            exact hnil
          · rw [heq]
            have hrest := ih (taken ++ [members[i]]) (swarms.insert donor (members.eraseIdx i)) g'
              (by rw [List.length_append, List.length_singleton]; omega)
            rw [List.append_assoc] at hrest
            exact .head (.take hshort hlargest i hi) hrest

/-- As many rounds as there are members in the surplus found all the swarms that it suffices
for. -/
theorem reaches_foundSwarms (rounds : Nat) (g : Twister) (h : swarms.surplus ≤ rounds) :
    Reaches (.founding swarms) (.mending (foundSwarms rounds swarms g).1) := by
  induction rounds generalizing swarms g with
  | zero => exact .single (.founded (Nat.lt_of_le_of_lt h (by decide)))
  | succ rounds ih =>
      rw [foundSwarms]
      split
      · rename_i few
        exact .single (.founded few)
      · rename_i many
        have hmany := Nat.le_of_not_lt many
        split
        · rename_i used
          refine .single (.crowded hmany ?_)
          simpa [SortedMap.contains, SortedMap.mem_keys, Option.isSome_iff_exists] using used
        · rename_i free
          have hfree : swarms.freshId ∉ swarms.keys := by
            simpa [SortedMap.contains, SortedMap.mem_keys, Option.isSome_iff_exists] using free
          obtain ⟨hlength, hsurplus⟩ := surplus_takeFromLargest idealSwarmSize swarms g hmany
          have hkeys := (spread_takeFromLargest idealSwarmSize swarms g).keys
          have hsome : 0 < idealSwarmSize := by decide
          have hnew := surplus_found (hkeys ▸ hfree) (Nat.le_of_eq hlength)
          refine .head (.found hmany hfree) (.trans (reaches_takeFromLargest swarms.freshId
            idealSwarmSize [] swarms g (Nat.zero_add _)) (ih _ (by rw [List.nil_append]; omega)))

/-- Rounds that a swarm has room for fill it as far as others can spare members. -/
theorem reaches_fill (target count : Nat) (swarms : SwarmMap) (g : Twister)
    (h : minSwarmSize ≤ ((swarms.get? target).getD []).length + count) :
    Reaches (.filling target swarms) (.filling target (fill target count swarms g).1) ∧
      (((SortedMap.get? (fill target count swarms g).1 target).getD []).length < minSwarmSize →
        donor? (fill target count swarms g).1 target = none) := by
  induction count generalizing swarms g with
  | zero =>
      exact ⟨.refl, fun hsmall => absurd hsmall (Nat.not_lt_of_le h)⟩
  | succ count ih =>
      rw [fill]
      split
      · rename_i enough
        exact ⟨.refl, fun hsmall => absurd hsmall (Nat.not_lt_of_le enough)⟩
      · rename_i small
        have hsmall := Nat.lt_of_not_le small
        cases hdonor : swarms.donor? target with
        | none => exact ⟨.refl, fun _ => hdonor⟩
        | some s =>
            obtain ⟨donor, members⟩ := s
            dsimp only
            rcases takeRandom_cases members g with ⟨g', hnil, -⟩ | ⟨i, g', hi, heq⟩
            · have hspare := (List.mem_filter.1 (List.maxOn?_mem hdonor)).2
              rw [hnil] at hspare
              simp at hspare
            · rw [heq]
              obtain ⟨hrest, hnone⟩ := ih ((swarms.insert donor (members.eraseIdx i)).insert target
                ((swarms.get? target).getD [] ++ [members[i]])) g' (by
                  rw [SortedMap.get?_insert_self, Option.getD_some, List.length_append,
                    List.length_singleton]
                  omega)
              exact ⟨.head (.lend hsmall hdonor i hi) hrest, hnone⟩

/-- As many rounds as there are swarms that are too small mend all of them. -/
theorem reaches_mend (rounds : Nat) (g : Twister) (h : swarms.undersized.length ≤ rounds) :
    Reaches (.mending swarms) (.done (SwarmMap.mend rounds swarms g).1) := by
  induction rounds generalizing swarms g with
  | zero =>
      have hnil := List.map_eq_nil_iff.1 (List.length_eq_zero_iff.1 (Nat.le_zero.1 h))
      exact .single (.mended (.inr (minOn?_eq_none_iff.2 hnil)))
  | succ rounds ih =>
      rw [SwarmMap.mend]
      split
      · rename_i hone
        exact .single (.mended (.inl hone))
      · rename_i hseveral
        have several := Nat.lt_of_not_le hseveral
        split
        · rename_i hnone
          exact .single (.mended (.inr hnone))
        · rename_i target members hsmall
          have htarget := mem_undersized_of_undersized? hsmall
          obtain ⟨hfill, hnobody⟩ := reaches_fill target minSwarmSize swarms g
            (Nat.le_add_left _ _)
          refine .head (.mend several hsmall) (.trans hfill ?_)
          dsimp only
          split
          · rename_i small
            have hfewer := (Mends.dissolved (g := g) htarget several).fewer
            exact .head (.dissolve small (hnobody small)) (ih _ (by omega))
          · rename_i enough
            have hlarge := Nat.le_of_not_lt enough
            have hfewer := (Mends.filled (g := g) htarget fun hstill => enough ?_).fewer
            · exact .head (.filled hlarge) (ih _ (by omega))
            · obtain ⟨ms, hms, hlength⟩ := mem_undersized.1 hstill
              rwa [hms]

/-- The rebalancing under a seed is one of the runs. -/
theorem reaches_rebalance (swarms : SwarmMap) (seed : Nat) :
    Reaches (.waiting swarms) (.done (swarms.rebalance seed)) := by
  unfold rebalance
  dsimp only
  obtain ⟨nodes, hnodes, heq⟩ := assign_eq swarms (Twister.ofSeed (UInt64.ofNat seed))
  refine .head (.assign hnodes) (.trans (heq ▸ reaches_foundSwarms _ _ (Nat.le_refl _))
    (reaches_mend _ _ ?_))
  rw [undersized, List.length_map]
  exact List.length_filter_le _ _

/-! ## At rest -/

theorem sound_waiting (hids : ∀ id ∈ swarms.keys, id ≤ unassignedSwarm)
    (hfew : swarms.size + swarms.members.length < 2 ^ 63) :
    Stage.Sound swarms (.waiting swarms) := ⟨rfl, hids, hfew⟩

theorem atRest_rebalance (hids : ∀ id ∈ swarms.keys, id ≤ unassignedSwarm)
    (hfew : swarms.size + swarms.members.length < 2 ^ 63) (seed : Nat) :
    (swarms.rebalance seed).AtRest :=
  ((sound_waiting hids hfew).reaches (reaches_rebalance swarms seed)).2

/-- **A rebalancing comes to rest and loses nobody.** Whatever is drawn, it goes on for finitely
many steps, and where no other can follow it has ended with the nodes that it began with, all of
them in swarms. Either one swarm is left at most or none is too small, and the surplus does not
suffice to found another. So it is for every seed. -/
theorem rebalance_settles (hids : ∀ id ∈ swarms.keys, id ≤ unassignedSwarm)
    (hfew : swarms.size + swarms.members.length < 2 ^ 63) :
    (∀ run : Nat → Stage, run 0 = .waiting swarms → ∃ n, ¬ Step (run n) (run (n + 1))) ∧
      (∀ stage, Reaches (.waiting swarms) stage → (∀ next, ¬ Step stage next) →
        ∃ settled, stage = .done settled ∧ settled.members.Perm swarms.members ∧
          settled.AtRest) ∧
      ∀ seed, Reaches (.waiting swarms) (.done (swarms.rebalance seed)) ∧
        (swarms.rebalance seed).members.Perm swarms.members ∧ (swarms.rebalance seed).AtRest := by
  have hsound := sound_waiting hids hfew
  refine ⟨fun run hrun => ?_, fun stage hreach hfinal => ?_, fun seed => ?_⟩
  · exact Stage.Sound.exists_stop (hrun ▸ hsound)
  · have hstage := hsound.reaches hreach
    rcases hstage.progress with ⟨next, hnext⟩ | ⟨settled, rfl⟩
    · exact absurd hnext (hfinal next)
    · exact ⟨settled, rfl, hstage.1.members, hstage.2⟩
  · exact ⟨reaches_rebalance swarms seed, members_rebalance swarms seed,
      atRest_rebalance hids hfew seed⟩

/-- A new node, and thirteen in one swarm. -/
def newcomer : SwarmMap :=
  let key : UInt8 → PublicKey := fun k => ⟨List.replicate 32 k, List.length_replicate⟩
  SortedMap.ofList [(3, [key 1, key 2, key 3, key 4, key 5, key 6, key 7, key 8, key 9, key 10,
    key 11, key 12, key 13]), (unassignedSwarm, [key 14])]

/-- With the new node the swarm is large enough for another to be founded out of it. -/
theorem rebalance_settles_newcomer :
    SortedMap.keys (newcomer.rebalance 5) = [3, 9223372036854775809] ∧
      (newcomer.rebalance 5).members.Perm newcomer.members ∧ (newcomer.rebalance 5).AtRest := by
  obtain ⟨-, -, hseed⟩ := @rebalance_settles newcomer (by decide +kernel) (by decide +kernel)
  exact ⟨by decide +kernel, (hseed 5).2.1, (hseed 5).2.2⟩

end SwarmMap

end StakeRegistry
