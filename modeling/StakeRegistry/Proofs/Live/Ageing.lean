import Mathlib.Data.List.Nodup
import StakeRegistry.Proofs.Live.Restarting
import StakeRegistry.Proofs.Live.Voting

/-!
# No quorum is lost by ageing

A live registry that was started and then offered blocks has published one head after the other,
one for every height from the first one on (`LiveRegistry.Published`). Its history holds of them
what ageing leaves (`LiveRegistry.Remembers`). Main statements:

* `Remembers.advance`: the next head leaves everything remembered;
* `inOrder_of_load`: snapshots of registries in order are loaded in order;
* `Published.quorums_kept`: the quorums of every head are found as they were published, and the
  recent heads themselves.
-/

set_option autoImplicit false

namespace StakeRegistry

namespace LiveRegistry

/-! ## What was published -/

/-- Whether a start builds upon the snapshot in the store. -/
def resumes (l : LiveRegistry) (s : Surroundings) : Bool :=
  match l.load s s.chain.currentHeight with
  | (.ok true, loaded) => loaded.isUsable s
  | _ => false

/-- What a start builds upon: a snapshot, or the empty registry. -/
def foundation (l : LiveRegistry) (s : Surroundings) : LiveRegistry :=
  if l.chainFork s < HardFork.serviceNodes then (l.reset s).2
  else
    let loaded := (l.load s s.chain.currentHeight).2
    if l.resumes s then loaded else (loaded.reset s).2

/-- The heights whose blocks a start applies: none before service nodes exist, or when the store
cannot be emptied. -/
def startHeights (l : LiveRegistry) (s : Surroundings) : List Nat :=
  let first := (l.foundation s).head.height + 1
  if l.chainFork s < HardFork.serviceNodes then []
  else if l.resumes s || s.writeFault.isNone then
    List.range' first (s.chain.currentHeight - first)
  else []

theorem resumes_iff {l : LiveRegistry} {s : Surroundings} : l.resumes s = true ↔
    (l.load s s.chain.currentHeight).1 = .ok true ∧
      (l.load s s.chain.currentHeight).2.isUsable s = true := by
  unfold resumes
  generalize l.load s s.chain.currentHeight = answer
  split
  · simp
  · rename_i hanswer
    refine iff_of_false Bool.false_ne_true fun h => hanswer answer.2 ?_
    rw [← h.1]

/-- A start applies blocks to what it builds upon. -/
theorem init_eq_replay (l : LiveRegistry) (s : Surroundings) :
    (l.init s).2 = (replay s (l.startHeights s) (l.foundation s)).2 := by
  unfold startHeights foundation
  by_cases hfork : l.chainFork s < HardFork.serviceNodes
  · unfold init
    rw [if_pos hfork, if_pos hfork, if_pos hfork]
    rfl
  · rw [if_neg hfork, if_neg hfork]
    dsimp only
    by_cases hresumes : l.resumes s = true
    · obtain ⟨hload, husable⟩ := resumes_iff.1 hresumes
      rw [init_of_loaded hfork hload husable, if_pos hresumes, if_pos (by simp [hresumes])]
      rfl
    · rw [init_of_unloaded hfork (mt resumes_iff.2 hresumes), if_neg hresumes]
      unfold reset
      cases s.writeFault with
      | some reason =>
          rw [if_neg (by simpa using hresumes)]
          rfl
      | none =>
          rw [if_pos (by simp)]
          rfl

/-- The heads that a start publishes: the one that it builds upon, and one for every block that it
applies. -/
def startHeads (l : LiveRegistry) (s : Surroundings) : List Registry :=
  (l.foundation s).head :: (replayed s (l.startHeights s) (l.foundation s)).map (·.after)

/-- The past of a registry lies in order below its head. -/
def InOrder (l : LiveRegistry) : Prop := l.history.Ordered l.head.height

/-- A live registry that was started, from nothing or from a snapshot in order, and was then
offered blocks, with all heads that it has published, in order. What surrounds it may be different
each time. -/
inductive Published : LiveRegistry → List Registry → Prop where
  | init {l : LiveRegistry} {s : Surroundings}
      (inOrder : l.resumes s = true → (l.load s s.chain.currentHeight).2.InOrder) :
      Published (l.init s).2 (l.startHeads s)
  | add {l : LiveRegistry} {heads : List Registry} {s : Surroundings} {block : Block}
      {txs : List Transaction} {checkpoint : Option Checkpoint} (published : Published l heads) :
      Published (l.addBlock s block txs checkpoint).2
        (heads ++ (l.added s block txs checkpoint).map (·.after))

/-! ## The invariant -/

/-- There is one head for every height from the first one to that of the last one, and history
holds what ageing leaves of them. -/
structure Remembers (l : LiveRegistry) (heads : List Registry) (first : Nat) : Prop where
  first_le : first ≤ l.head.height
  heights : heads.map (·.height) = List.range' first (l.head.height + 1 - first)
  last : headAt heads l.head.height = some l.head
  aged : l.history.Aged (headAt heads) first l.head.height

section Runs

variable {l l' next : LiveRegistry} {heads : List Registry} {first : Nat} {s : Surroundings}
  {block : Block} {txs : List Transaction} {checkpoint : Option Checkpoint}

theorem Remembers.bounds (h : Remembers l heads first) {r : Registry} (hr : r ∈ heads) :
    first ≤ r.height ∧ r.height ≤ l.head.height := by
  have hmem : r.height ∈ heads.map (·.height) := List.mem_map_of_mem hr
  rw [h.heights, List.mem_range'_1] at hmem
  omega

theorem Remembers.of_samePast (h : Remembers l heads first) (hpast : l.SamePast l') :
    Remembers l' heads first := by
  obtain ⟨-, hhead, hhistory, -, -, -⟩ := hpast
  refine ⟨?_, ?_, ?_, ?_⟩
  · rw [hhead]
    exact h.first_le
  · rw [hhead]
    exact h.heights
  · rw [hhead]
    exact h.last
  · rw [hhead, hhistory]
    exact h.aged

/-- The next head leaves everything remembered. -/
theorem Remembers.advance (h : Remembers l heads first) {verify : Bool} {outcome : Outcome}
    (hadvance : l.advance s block txs checkpoint verify = .ok (outcome, next)) :
    Remembers next (heads ++ [next.head]) first := by
  obtain ⟨head, happly, -, rfl⟩ := advance_eq_ok_iff.1 hadvance
  have hblock : head.height = block.height := Registry.height_of_apply happly
  have hbefore : l.head.height + 1 = block.height := Registry.height_before_apply happly
  have hheight : head.height = l.head.height + 1 := by omega
  have hfirst := h.first_le
  have hold : ∀ k, k < head.height → headAt (heads ++ [head]) k = headAt heads k :=
    fun k hk => headAt_append_of_ne heads (by omega)
  rw [← hblock]
  refine ⟨?_, ?_, ?_, ?_⟩
  · show first ≤ head.height
    omega
  · show (heads ++ [head]).map (·.height) = List.range' first (head.height + 1 - first)
    rw [List.map_append, h.heights, hheight,
      show l.head.height + 1 + 1 - first = (l.head.height + 1 - first) + 1 by omega,
      List.range'_1_concat, List.map_singleton, hheight]
    congr 2
    omega
  · show headAt (heads ++ [head]) head.height = some head
    have hnone : headAt heads head.height = none := by
      refine List.find?_eq_none.2 fun r hr => ?_
      have hbounds := h.bounds hr
      simp
      omega
    rw [headAt_append, hnone, if_pos rfl]
    rfl
  · show (l.history.push head.height l.head).Aged (headAt (heads ++ [head])) first head.height
    rw [hheight]
    refine (h.aged.congr fun k hk => hold k (by omega)).push rfl ?_ hfirst
    rw [hold _ (by omega)]
    exact h.last

/-- With every block that is applied, the head after it is published. -/
theorem Remembers.append_applied {log : List Applied}
    (h : Remembers l (heads ++ log.map (·.after)) first) {verify : Bool} {outcome : Outcome}
    (hadvance : l.advance s block txs checkpoint verify = .ok (outcome, next)) :
    Remembers next (heads ++ (log ++ [l.applied s block txs next]).map (·.after)) first := by
  rw [List.map_append, ← List.append_assoc]
  exact h.advance hadvance

theorem Remembers.replay (h : Remembers l heads first) (s : Surroundings) (heights : List Nat) :
    Remembers (replay s heights l).2 (heads ++ (replayed s heights l).map (·.after)) first :=
  replay_induction (P := fun l log => Remembers l (heads ++ log.map (·.after)) first)
    (fun h hadvance => h.append_applied hadvance) heights
    (by rwa [List.map_nil, List.append_nil])

theorem Remembers.addBlock (h : Remembers l heads first) :
    Remembers (l.addBlock s block txs checkpoint).2
      (heads ++ (l.added s block txs checkpoint).map (·.after)) first :=
  addBlock_induction (P := fun l log => Remembers l (heads ++ log.map (·.after)) first)
    (fun h hadvance => h.append_applied hadvance) (fun h hpast => h.of_samePast hpast)
    (by rwa [List.map_nil, List.append_nil])

/-- A registry whose past is in order remembers its head. -/
theorem remembers_of_inOrder (h : l.InOrder) : Remembers l [l.head] l.head.height := by
  have hlast : headAt [l.head] l.head.height = some l.head := by simp [headAt]
  refine ⟨Nat.le_refl _, ?_, hlast, .begin h fun k hk => ?_⟩
  · rw [Nat.add_sub_cancel_left]
    rfl
  · refine List.find?_eq_none.2 fun r hr => ?_
    rw [List.mem_singleton.1 hr]
    simp
    omega

/-- An emptied registry is in order. -/
theorem inOrder_cleared (l : LiveRegistry) : l.cleared.InOrder := History.ordered_new _ _

theorem inOrder_reset (l : LiveRegistry) (s : Surroundings) : (l.reset s).2.InOrder := by
  unfold reset
  cases s.writeFault with
  | some reason => exact inOrder_cleared l
  | none => exact History.ordered_new _ _

/-- What a start builds upon is in order, if the snapshot is, in case it is used. -/
theorem inOrder_foundation
    (h : l.resumes s = true → (l.load s s.chain.currentHeight).2.InOrder) :
    (l.foundation s).InOrder := by
  unfold foundation
  split
  · exact inOrder_reset l s
  · dsimp only
    split
    · rename_i hresumes
      exact h hresumes
    · exact inOrder_reset _ s

theorem Published.exists_remembers (h : Published l heads) :
    ∃ first : Registry, heads.head? = some first ∧ Remembers l heads first.height := by
  induction h with
  | @init l s inOrder =>
      refine ⟨(l.foundation s).head, rfl, ?_⟩
      rw [init_eq_replay]
      exact (remembers_of_inOrder (inOrder_foundation inOrder)).replay s _
  | add published ih =>
      obtain ⟨first, hfirst, hremembers⟩ := ih
      refine ⟨first, ?_, hremembers.addBlock⟩
      rw [List.head?_append, hfirst]
      rfl

/-- What was published is remembered from the first head on. -/
theorem Published.remembers (h : Published l heads) {first : Registry}
    (hfirst : heads.head? = some first) : Remembers l heads first.height := by
  obtain ⟨first', hfirst', hremembers⟩ := h.exists_remembers
  rw [hfirst] at hfirst'
  rwa [Option.some.inj hfirst']

/-- The past of what was started from nothing, or from a snapshot in order, stays in order. -/
theorem Published.inOrder (h : Published l heads) : l.InOrder := by
  obtain ⟨first, -, hremembers⟩ := h.exists_remembers
  exact hremembers.aged.ordered

/-- A snapshot that was taken of a registry in order is loaded in order. -/
theorem inOrder_of_load {saved : LiveRegistry} {currentHeight : Nat} (h : saved.InOrder)
    (hfits : saved.SnapshotFits)
    (hlong : l.store.get? Store.longTermKey =
      some (StoredData.codec.encode saved.history.longTerm))
    (hshort : l.store.get? Store.shortTermKey =
      some (StoredData.codec.encode (saved.history.shortTerm saved.head)))
    (hload : (l.load s currentHeight).1 = .ok true) : (l.load s currentHeight).2.InOrder := by
  obtain ⟨restored, hsnapshot, -, hhead, hhistory⟩ := load_eq_ok hload
  have hrestore := restore_of_snapshot? (l := l.cleared) hlong hshort hfits.1 hfits.2 hsnapshot
  unfold InOrder
  rw [hhead, hhistory]
  exact History.Ordered.restore h hrestore

/-- Every height since the first head has one head. -/
theorem Remembers.exists_head (h : Remembers l heads first) {height : Nat} (hlow : first ≤ height)
    (hhigh : height ≤ l.head.height) :
    ∃ r, headAt heads height = some r ∧ ∀ r', r' ∈ heads ∧ r'.height = height ↔ r' = r := by
  have hnodup : (heads.map (·.height)).Nodup := by
    rw [h.heights]
    exact List.nodup_range'
  have hmem : height ∈ heads.map (·.height) := by
    rw [h.heights, List.mem_range'_1]
    omega
  obtain ⟨r, hr, hheight⟩ := List.mem_map.1 hmem
  obtain ⟨found, hfound⟩ := Option.isSome_iff_exists.1
    (List.find?_isSome.2 ⟨r, hr, by simpa using hheight⟩ : (headAt heads height).isSome)
  obtain ⟨hfoundMem, hfoundHeight⟩ := mem_of_headAt hfound
  refine ⟨found, hfound, fun r' => ⟨fun ⟨hr', hheight'⟩ => ?_, fun heq => ?_⟩⟩
  · exact List.inj_on_of_nodup_map hnodup hr' hfoundMem (hheight'.trans hfoundHeight.symm)
  · rw [heq]
    exact ⟨hfoundMem, hfoundHeight⟩

end Runs

/-! ## Nothing is lost -/

/-- No quorum is lost or altered by ageing. Of every height from the first head to the last there
is exactly one head. While all old quorums are kept, its quorums are found as they were. Without
the old ones this still holds within the last 359 blocks, where the whole head is found, and at
the heights that are archived. -/
theorem Published.quorums_kept {l : LiveRegistry} {heads : List Registry}
    (h : Published l heads) {first : Registry} (hfirst : heads.head? = some first) {height : Nat}
    (hlow : first.height ≤ height) (hhigh : height ≤ l.head.height) :
    ∃ r, (∀ r', r' ∈ heads ∧ r'.height = height ↔ r' = r) ∧
      (l.history.oldLimit = History.limitOf 1 → l.head.height ≤ maxU64 →
        l.view.quorums? height true = some r.quorums) ∧
      (max 1 (l.head.height - 359) ≤ height → l.view.state? height = some r) ∧
      (max 1 (l.head.height - 359) ≤ height ∨ height % 10000 = 0 ∨ 9935 ≤ height % 10000 →
        l.view.quorums? height false = some r.quorums) := by
  have hremembers := h.remembers hfirst
  have haged := hremembers.aged
  obtain ⟨r, hr, honly⟩ := hremembers.exists_head hlow hhigh
  have hrecent : max 1 (l.head.height - 359) ≤ height →
      l.head.height - recentBlocks < height := by
    unfold recentBlocks voteLifetime
    omega
  refine ⟨r, honly, ?_⟩
  rcases Nat.lt_or_eq_of_le hhigh with hbelow | rfl
  · refine ⟨fun hlimit htop => ?_, fun hlate => ?_, fun hkept => ?_⟩
    · have htop : l.head.height ≤ l.history.oldLimit := by
        rw [hlimit]
        exact htop
      exact haged.quorums?_of_limit htop hlow hbelow hr
    · exact haged.state?_of_recent hlow hbelow hr (.inl (hrecent hlate))
    · exact haged.quorums?_of_kept hlow hbelow hr (hkept.imp_left hrecent) false
  · -- The last head is the head itself.
    have hstate : l.view.state? l.head.height = some r := by
      rw [← hr, hremembers.last]
      exact if_pos rfl
    exact ⟨fun _ _ => HistoryView.quorums?_of_state? hstate true, fun _ => hstate,
      fun _ => HistoryView.quorums?_of_state? hstate false⟩

end LiveRegistry

/-! ## Many blocks without nodes -/

/-- The fake chain with the bridge, and with all old quorums kept. -/
def Settings.remembering : Settings := { Settings.bridged with quorumHistory := 1 }

namespace Registry

/-- Nobody is registered. -/
def IsEmpty (r : Registry) : Prop := ∀ key, r.info? key = none

theorem IsEmpty.active_eq_nil {r : Registry} (h : r.IsEmpty) : r.active = [] := by
  refine List.eq_nil_iff_forall_not_mem.2 fun n hn => ?_
  obtain ⟨info, hinfo⟩ := exists_info_of_mem_select
    (List.mem_map_of_mem hn : n.1 ∈ NodeList.keys r.active)
  rw [h] at hinfo
  cases hinfo

/-- A block without transactions registers nobody. -/
theorem IsEmpty.apply {r next : Registry} (h : r.IsEmpty) {ctx : Context} {block : Block}
    {outcome : Outcome} (happly : r.apply ctx block [] = .ok (next, outcome)) : next.IsEmpty := by
  intro key
  refine Option.eq_none_iff_forall_not_mem.2 fun info hinfo => ?_
  rw [Option.mem_def, (sameButQuorums_of_apply happly).info?_eq] at hinfo
  obtain ⟨drafted, hdrafted, -⟩ := keepsShares_settled r ctx block [] key info hinfo
  obtain ⟨old, hold, -⟩ := keepsStakes_opened r ctx block key drafted hdrafted
  rw [h] at hold
  cases hold

end Registry

namespace LiveRegistry

/-- A registry with such settings that was started and then took some blocks without
transactions. -/
theorem Published.exists_after_blocks (blocks : Nat) : ∃ l heads first, Published l heads ∧
    heads.head? = some first ∧ first.height = 0 ∧ l.settings = .remembering ∧
      l.head.height = blocks ∧ l.head.IsEmpty ∧ l.history.oldLimit = History.limitOf 1 := by
  induction blocks with
  | zero =>
      let l := start .remembering ∅ []
      have hunused : l.resumes .trusting = true → (l.load .trusting 0).2.InOrder := by
        intro hresumes
        have hload := load_of_noSnapshot (l := l) (s := .trusting) rfl 0
        exact absurd (resumes_iff.1 hresumes).1 hload.1
      exact ⟨_, _, _, .init hunused, rfl, rfl, rfl, rfl, fun _ => rfl, rfl⟩
  | succ blocks ih =>
      obtain ⟨l, heads, first, h, hfirst, hzero, hsettings, hheight, hempty, hlimit⟩ := ih
      have hrules : l.rules = NetworkRules.of .fakechain := congrArg Settings.rules hsettings
      have hfew : l.head.active.length < l.rules.pulseMinNodes := by
        rw [hempty.active_eq_nil, hrules]
        decide
      obtain ⟨head, outcome, happly, -, hpast⟩ := addBlock_of_mined l .trusting []
        (Block.isMined_plain (blocks + 1) .v21)
        (show HardFork.serviceNodes ≤ HardFork.v21 by decide) rfl
        (by rw [hheight]; rfl) hfew
      have hnext : Published (l.addBlock .trusting (.plain (blocks + 1) .v21) [] none).2 _ :=
        .add h
      refine ⟨_, _, first, hnext, ?_, hzero, hpast.settings.trans hsettings, ?_, ?_, ?_⟩
      · rw [List.head?_append, hfirst]
        rfl
      · rw [hpast.head]
        exact Registry.height_of_apply happly
      · rw [hpast.head]
        exact hempty.apply happly
      · rw [hpast.history]
        exact (History.oldLimit_push _ _ _).trans hlimit

/-- After four hundred blocks the registry of height ten is gone, and its quorums are still found.
That of height three hundred is found in full. -/
theorem Published.quorums_kept_after_four_hundred_blocks :
    ∃ l heads first tenth late, Published l heads ∧ heads.head? = some first ∧
      first.height = 0 ∧ l.head.height = 400 ∧ tenth ∈ heads ∧ tenth.height = 10 ∧
      l.view.state? 10 = none ∧ l.view.quorums? 10 true = some tenth.quorums ∧
      late ∈ heads ∧ late.height = 300 ∧ l.view.state? 300 = some late := by
  obtain ⟨l, heads, first, h, hfirst, hzero, -, hheight, -, hlimit⟩ := exists_after_blocks 400
  have hfirstLow : first.height ≤ 10 := by omega
  obtain ⟨tenth, htenth, hquorums, -, -⟩ := h.quorums_kept hfirst hfirstLow (by omega)
  obtain ⟨late, hlate, -, hstate, -⟩ :=
    h.quorums_kept hfirst (show first.height ≤ 300 by omega) (by omega)
  obtain ⟨htenthMem, htenthHeight⟩ := (htenth tenth).2 rfl
  obtain ⟨hlateMem, hlateHeight⟩ := (hlate late).2 rfl
  have hremembers := h.remembers hfirst
  have hgone : l.view.state? 10 = none := by
    obtain ⟨r, hr, -⟩ := hremembers.exists_head hfirstLow (by omega)
    refine (hremembers.aged.state?_of_culled hfirstLow (by omega) hr ?_).trans rfl
    rw [hheight]
    decide
  refine ⟨l, heads, first, tenth, late, h, hfirst, hzero, hheight, htenthMem, htenthHeight, hgone,
    hquorums hlimit ?_, hlateMem, hlateHeight, hstate ?_⟩
  · rw [hheight]
    decide
  · rw [hheight]
    decide

end LiveRegistry

end StakeRegistry
