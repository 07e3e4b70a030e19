import StakeRegistry.Network.Settings
import StakeRegistry.Live.Basic

/-!
# The two questions asked of a schedule

In a schedule whose heights and versions do not descend, the fork in force at a height and the
height at which a version begins answer one question: has the version, or a later one, begun by
then? Main statements:

* `Schedule.le_forkAt_iff`: the fork in force says so;
* `Schedule.exists_activationHeight?_le_iff`: the activation of the version says so;
* `Settings.serviceNodes_le_forkAt_iff`: the fork in force has service nodes exactly above the
  height just before their activation, from which a registry starts.
-/

set_option autoImplicit false

namespace StakeRegistry

namespace Schedule

/-- Neither heights nor versions descend. -/
def Ordered (schedule : Schedule) : Prop :=
  schedule.Pairwise fun a b => a.height ≤ b.height ∧ a.fork ≤ b.fork

instance (schedule : Schedule) : Decidable schedule.Ordered :=
  inferInstanceAs (Decidable (List.Pairwise _ schedule))

/-- What has begun at a height, the last activation being in force. -/
def begun (schedule : Schedule) (height : Nat) : List Activation :=
  schedule.takeWhile fun a => decide (a.height ≤ height)

section Questions

variable {schedule : Schedule} {fork : HardFork} {height : Nat}

theorem mem_begun_iff (hordered : schedule.Ordered) {a : Activation} :
    a ∈ schedule.begun height ↔ a ∈ schedule ∧ a.height ≤ height := by
  induction schedule with
  | nil => simp [begun]
  | cons b rest ih =>
      obtain ⟨hbefore, hrest⟩ := List.pairwise_cons.1 hordered
      by_cases hb : b.height ≤ height
      · have hbegun : begun (b :: rest) height = b :: begun rest height := by
          simp [begun, hb]
        rw [hbegun, List.mem_cons, List.mem_cons, ih hrest]
        constructor
        · rintro (rfl | ⟨ha, hle⟩)
          · exact ⟨Or.inl rfl, hb⟩
          · exact ⟨Or.inr ha, hle⟩
        · rintro ⟨rfl | ha, hle⟩
          · exact Or.inl rfl
          · exact Or.inr ⟨ha, hle⟩
      -- Where the first activation has not begun, none has.
      · have hbegun : begun (b :: rest) height = [] := by
          simp [begun, hb]
        rw [hbegun]
        constructor
        · intro ha
          cases ha
        · rintro ⟨ha, hle⟩
          rcases List.mem_cons.1 ha with rfl | ha
          · exact absurd hle hb
          · exact absurd (Nat.le_trans (hbefore a ha).1 hle) hb

/-- No activation that has begun is of a later version than the last one of them. -/
theorem fork_le_of_getLast?_begun (hordered : schedule.Ordered) {a last : Activation}
    (ha : a ∈ schedule.begun height) (hlast : (schedule.begun height).getLast? = some last) :
    a.fork ≤ last.fork := by
  obtain ⟨earlier, hbegun⟩ := List.getLast?_eq_some_iff.1 hlast
  have hpairs : (schedule.begun height).Pairwise fun a b => a.height ≤ b.height ∧ a.fork ≤ b.fork :=
    hordered.sublist (List.takeWhile_sublist _)
  rw [hbegun] at ha hpairs
  rcases List.mem_append.1 ha with ha | ha
  · exact ((List.pairwise_append.1 hpairs).2.2 a ha last (List.mem_singleton_self last)).2
  · rw [List.mem_singleton.1 ha]
    exact Nat.le_refl _

/-- The fork in force is a version above the first, or a later one, exactly if such a version has
begun. -/
theorem le_forkAt_iff (hordered : schedule.Ordered) (hfork : HardFork.v7 < fork) :
    fork ≤ schedule.forkAt height ↔ ∃ a ∈ schedule, fork ≤ a.fork ∧ a.height ≤ height := by
  unfold forkAt
  rw [← begun]
  cases hlast : (schedule.begun height).getLast? with
  | none =>
      constructor
      · intro hle
        exact absurd hfork (Nat.not_lt.2 hle)
      · rintro ⟨a, ha, -, hle⟩
        have hmem := (mem_begun_iff hordered).2 ⟨ha, hle⟩
        rw [List.getLast?_eq_none_iff.1 hlast] at hmem
        cases hmem
  | some last =>
      constructor
      · intro hle
        obtain ⟨hmem, hbegun⟩ := (mem_begun_iff hordered).1 (List.mem_of_getLast? hlast)
        exact ⟨last, hmem, hle, hbegun⟩
      · rintro ⟨a, ha, hle, hbegun⟩
        have hmem := (mem_begun_iff hordered).2 ⟨ha, hbegun⟩
        exact Nat.le_trans hle (fork_le_of_getLast?_begun hordered hmem hlast)

/-- The activation that a version begins with is not above any other of it or of a later one. -/
theorem height_le_of_find?_eq_some (hordered : schedule.Ordered) {first a : Activation}
    (hfirst : schedule.find? (fun a => decide (fork ≤ a.fork)) = some first) (ha : a ∈ schedule)
    (hle : fork ≤ a.fork) : first.height ≤ a.height := by
  obtain ⟨-, earlier, later, hsplit, hearlier⟩ := List.find?_eq_some_iff_append.1 hfirst
  unfold Ordered at hordered
  rw [hsplit] at ha hordered
  rcases List.mem_append.1 ha with ha | ha
  · have hbefore := hearlier a ha
    simp [hle] at hbefore
  · rcases List.mem_cons.1 ha with rfl | ha
    · exact Nat.le_refl _
    · exact ((List.pairwise_cons.1 (List.pairwise_append.1 hordered).2.1).1 a ha).1

/-- A version has been activated at a height exactly if it, or a later one, has begun. -/
theorem exists_activationHeight?_le_iff (hordered : schedule.Ordered) :
    (∃ start, schedule.activationHeight? fork = some start ∧ start ≤ height) ↔
      ∃ a ∈ schedule, fork ≤ a.fork ∧ a.height ≤ height := by
  unfold activationHeight?
  constructor
  · rintro ⟨start, hstart, hbegun⟩
    obtain ⟨a, hfind, rfl⟩ := Option.map_eq_some_iff.1 hstart
    have hle : fork ≤ a.fork := by simpa using List.find?_some hfind
    exact ⟨a, List.mem_of_find?_eq_some hfind, hle, hbegun⟩
  · rintro ⟨a, ha, hle, hbegun⟩
    cases hfind : schedule.find? fun a => decide (fork ≤ a.fork) with
    | none => exact absurd (decide_eq_true hle) (List.find?_eq_none.1 hfind a ha)
    | some first =>
        have hfirst := height_le_of_find?_eq_some hordered hfind ha hle
        exact ⟨first.height, rfl, Nat.le_trans hfirst hbegun⟩

/-- Where a version begins at some height, the fork in force has reached it from there on. -/
theorem le_forkAt_iff_of_activationHeight? (hordered : schedule.Ordered)
    (hfork : HardFork.v7 < fork) {start : Nat}
    (hstart : schedule.activationHeight? fork = some start) :
    fork ≤ schedule.forkAt height ↔ start ≤ height := by
  rw [le_forkAt_iff hordered hfork, ← exists_activationHeight?_le_iff hordered, hstart]
  simp

/-- A version that was reached stays reached. -/
theorem le_forkAt_of_le (hordered : schedule.Ordered) (hfork : HardFork.v7 < fork) {later : Nat}
    (hle : fork ≤ schedule.forkAt height) (hlater : height ≤ later) :
    fork ≤ schedule.forkAt later := by
  obtain ⟨a, ha, hversion, hbegun⟩ := (le_forkAt_iff hordered hfork).1 hle
  exact (le_forkAt_iff hordered hfork).2 ⟨a, ha, hversion, Nat.le_trans hbegun hlater⟩

end Questions

end Schedule

/-- Settings whose schedule is in order and has service nodes begin just above the height that
registries start from. -/
structure Settings.WellScheduled (settings : Settings) : Prop where
  ordered : settings.schedule.Ordered
  activation : settings.schedule.activationHeight? HardFork.serviceNodes =
    some (settings.startHeight + 1)

/-- The fork in force has service nodes exactly above the start. -/
theorem Settings.serviceNodes_le_forkAt_iff {settings : Settings} (h : settings.WellScheduled)
    (height : Nat) :
    HardFork.serviceNodes ≤ settings.schedule.forkAt height ↔ settings.startHeight < height :=
  Schedule.le_forkAt_iff_of_activationHeight? h.ordered (by decide) h.activation

end StakeRegistry
