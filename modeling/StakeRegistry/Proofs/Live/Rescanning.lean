import StakeRegistry.Proofs.Live.Ageing

/-!
# Starting anew

A start that finds no usable snapshot goes by the schedule three times: the fork of the chain's
last block says whether there is anything to do, the activation of service nodes gives the height
at which the empty registry stands, and from there on every block of the chain is applied. Where
heights and versions do not descend these agree: the heights that such a start goes through are
those at which the fork in force has service nodes (`startHeights_of_anew`).
-/

set_option autoImplicit false

namespace StakeRegistry

/-- Of the numbers from one to another, those from a start on; a start at zero leaves none out. -/
theorem filter_le_range' {start n : Nat} (h : start ≤ n) :
    (List.range' 1 n).filter (fun k => decide (start ≤ k)) =
      List.range' (start - 1 + 1) (n - (start - 1)) := by
  have hsplit : List.range' 1 n =
      List.range' 1 (start - 1) ++ List.range' (1 + (start - 1)) (n - (start - 1)) := by
    rw [List.range'_append_1]
    congr 1
    omega
  have hbelow : (List.range' 1 (start - 1)).filter (fun k => decide (start ≤ k)) = [] := by
    refine List.filter_eq_nil_iff.2 fun k hk => ?_
    rw [List.mem_range'_1] at hk
    rw [decide_eq_true_eq]
    omega
  have habove : (List.range' (1 + (start - 1)) (n - (start - 1))).filter
      (fun k => decide (start ≤ k)) = List.range' (1 + (start - 1)) (n - (start - 1)) := by
    refine List.filter_eq_self.2 fun k hk => ?_
    rw [List.mem_range'_1] at hk
    exact decide_eq_true (by omega)
  rw [hsplit, List.filter_append, hbelow, habove, List.nil_append, Nat.add_comm]

namespace Settings

/-- The heights below a height, the first block apart, at which the fork in force has service
nodes. -/
def servedBelow (settings : Settings) (height : Nat) : List Nat :=
  (List.range' 1 (height - 1)).filter fun k =>
    decide (HardFork.serviceNodes ≤ settings.schedule.forkAt k)

variable {settings : Settings} {height : Nat}

/-- None of the heights has service nodes if the last one has not. -/
theorem servedBelow_of_lt (hordered : settings.schedule.Ordered)
    (hfork : settings.schedule.forkAt (height - 1) < HardFork.serviceNodes) :
    settings.servedBelow height = [] := by
  refine List.filter_eq_nil_iff.2 fun k hk hserved => ?_
  rw [List.mem_range'_1] at hk
  have hlast := Schedule.le_forkAt_of_le hordered (by decide) (of_decide_eq_true hserved)
    (show k ≤ height - 1 by omega)
  exact HardFork.not_lt.2 hlast hfork

/-- If the last one has, the heights above the start are those that have. -/
theorem servedBelow_of_le (hordered : settings.schedule.Ordered)
    (hfork : HardFork.serviceNodes ≤ settings.schedule.forkAt (height - 1)) :
    settings.servedBelow height =
      List.range' (settings.startHeight + 1) (height - (settings.startHeight + 1)) := by
  have hbegun := (Schedule.le_forkAt_iff hordered (by decide)).1 hfork
  obtain ⟨start, hstart, hle⟩ := (Schedule.exists_activationHeight?_le_iff hordered).2 hbegun
  have hserved {k : Nat} : HardFork.serviceNodes ≤ settings.schedule.forkAt k ↔ start ≤ k :=
    Schedule.le_forkAt_iff_of_activationHeight? hordered (by decide) hstart
  have hheight : settings.startHeight = start - 1 := by
    unfold Settings.startHeight
    rw [hstart]
    rfl
  have hcount : height - 1 - (start - 1) = height - (start - 1 + 1) := by omega
  unfold servedBelow
  simp only [hserved]
  rw [filter_le_range' hle, hheight, hcount]

end Settings

namespace LiveRegistry

variable {l : LiveRegistry} {s : Surroundings}

theorem head_reset (l : LiveRegistry) (s : Surroundings) :
    (l.reset s).2.head = Registry.new l.settings.startHeight := by
  unfold reset
  cases s.writeFault <;> rfl

/-- A start without a usable snapshot builds upon the empty registry just below service nodes. -/
theorem head_foundation_of_anew (hanew : l.resumes s = false) :
    (l.foundation s).head = Registry.new l.settings.startHeight := by
  unfold foundation
  dsimp only
  rw [hanew]
  by_cases hfork : l.chainFork s < HardFork.serviceNodes
  · rw [if_pos hfork, head_reset]
  · have hload := (load_keeps l s s.chain.currentHeight).1
    rw [if_neg hfork, if_neg Bool.false_ne_true, head_reset, hload]

theorem startHeights_of_anew (hordered : l.settings.schedule.Ordered)
    (hanew : l.resumes s = false) (hwritable : s.writeFault = none) :
    l.startHeights s = l.settings.servedBelow s.chain.currentHeight := by
  unfold startHeights
  rw [head_foundation_of_anew hanew, hanew, hwritable]
  by_cases hfork : l.chainFork s < HardFork.serviceNodes
  · rw [if_pos hfork, Settings.servedBelow_of_lt hordered hfork]
  · rw [if_neg hfork, Settings.servedBelow_of_le hordered (HardFork.not_lt.1 hfork)]
    rfl

/-- In a schedule whose heights and versions do not descend, whatever versions it skips, the fork
in force at a height has reached a version above the first exactly if the version has been
activated at or below the height. So a start without a usable snapshot goes, from the empty
registry just below service nodes, through the blocks at just those heights of the chain at which
the fork in force has service nodes, the first block apart. -/
theorem fork_lookups_agree (hordered : l.settings.schedule.Ordered) :
    (∀ (height : Nat) (fork : HardFork), HardFork.v7 < fork →
      (fork ≤ l.settings.schedule.forkAt height ↔
        ∃ start, l.settings.schedule.activationHeight? fork = some start ∧ start ≤ height)) ∧
      ∀ s : Surroundings, l.resumes s = false → s.writeFault = none →
        (l.foundation s).head = Registry.new l.settings.startHeight ∧
          (l.init s).2 =
            (replay s (l.settings.servedBelow s.chain.currentHeight) (l.foundation s)).2 := by
  constructor
  · intro height fork hfork
    rw [Schedule.le_forkAt_iff hordered hfork, Schedule.exists_activationHeight?_le_iff hordered]
  · intro s hanew hwritable
    refine ⟨head_foundation_of_anew hanew, ?_⟩
    rw [init_eq_replay, startHeights_of_anew hordered hanew hwritable]

/-- Two versions that begin at one height, below which others are skipped: version 12 counts as
begun from there on, and a start over a chain with blocks up to height 7 goes through the last
three. -/
theorem fork_lookups_agree_of_skipped :
    ∃ (l : LiveRegistry) (s : Surroundings),
      l.settings.schedule = [⟨.v7, 0⟩, ⟨.v10, 5⟩, ⟨.v16, 5⟩] ∧ l.settings.schedule.Ordered ∧
        HardFork.v12 ≤ l.settings.schedule.forkAt 5 ∧
        ¬ HardFork.v12 ≤ l.settings.schedule.forkAt 4 ∧
        l.resumes s = false ∧ s.writeFault = none ∧
        (l.foundation s).head = Registry.new 4 ∧
        (l.init s).2 = (replay s [5, 6, 7] (l.foundation s)).2 ∧ (l.init s).2.head.height = 7 := by
  let feed : Feed := .plain .v16 1 7
  let l := start ⟨.fakechain, 0, false, [⟨.v7, 0⟩, ⟨.v10, 5⟩, ⟨.v16, 5⟩], none⟩ ∅ []
  let s : Surroundings := ⟨.standard, feed.reader 8, 0, none, none, 0⟩
  have hordered : l.settings.schedule.Ordered := by decide
  have hanew : l.resumes s = false := by decide +kernel
  have hserved : l.settings.servedBelow s.chain.currentHeight = [5, 6, 7] := by decide +kernel
  obtain ⟨hagree, hstart⟩ := fork_lookups_agree hordered
  obtain ⟨hhead, hinit⟩ := hstart s hanew rfl
  rw [hserved] at hinit
  refine ⟨l, s, rfl, hordered, ?_, ?_, hanew, rfl, hhead, hinit, by decide +kernel⟩
  · exact (hagree 5 .v12 (by decide)).2 ⟨5, rfl, Nat.le_refl 5⟩
  · intro hle
    obtain ⟨first, hfirst, hlow⟩ := (hagree 4 .v12 (by decide)).1 hle
    cases hfirst
    exact absurd hlow (by decide)

end LiveRegistry

end StakeRegistry
