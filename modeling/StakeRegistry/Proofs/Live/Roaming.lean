import StakeRegistry.Proofs.History.Rewinding
import StakeRegistry.Proofs.Live.Runs

/-!
# Old quorums on the way forth and back

A live registry that was started from nothing, and whose chain then grew and was cut in any
order, keeps old quorums in the order of their heights, as long as it never had to go back to an
archived registry while old quorums were kept (`LiveRegistry.Roams`). Going back to the archive
leaves all old quorums in place, and the blocks that are applied again after it add those from
the archived height on for a second time. Then the order is lost until as many have been added
again as are kept. Main statements:

* `Roams.old_ascends`: old quorums are in order, and when they are after a way back into the
  archive;
* `Roams.old_repeats`: a run of two blocks after which an old height stands there twice.
-/

set_option autoImplicit false

namespace StakeRegistry

namespace LiveRegistry

/-- A live registry that was started on a store without a snapshot, was then offered blocks, and
went back whenever its chain was cut, but never to an archived registry while old quorums are
kept. What surrounds it may be different each time, and every operation may fail. -/
inductive Roams : LiveRegistry → Prop where
  | init {l : LiveRegistry} (s : Surroundings)
      (noSnapshot : l.store.get? Store.shortTermKey = none) : Roams (l.init s).2
  | add {l : LiveRegistry} (s : Surroundings) (block : Block) (txs : List Transaction)
      (checkpoint : Option Checkpoint) (earlier : Roams l) :
      Roams (l.addBlock s block txs checkpoint).2
  | addAlt {l : LiveRegistry} (s : Surroundings) (block : Block) (txs : List Transaction)
      (checkpoint : Option Checkpoint) (earlier : Roams l) :
      Roams (l.addAltBlock s block txs checkpoint).2
  | detach {l : LiveRegistry} (s : Surroundings) (height : Nat) (earlier : Roams l)
      (near : 0 < l.history.oldLimit →
        ∀ r, (l.history.rewind (height - 1)).1 ≠ .fromArchive r) :
      Roams (l.detach s height).2

/-! ## The invariant -/

/-- The past lies in layers, and no snapshot is stored. -/
def Tidy (l : LiveRegistry) : Prop :=
  l.history.Layered l.head.height ∧ l.store.get? Store.shortTermKey = none

section Runs

variable {l l' : LiveRegistry} {s : Surroundings} {height : Nat}

theorem lasting_tidy : Lasting Tidy :=
  .and (.ofHistory (P := fun h top => h.Layered top) (fun hh => hh.push rfl)
    fun _ hh => ⟨⟨hh.ordered.recent, hh.ordered.archive, hh.ordered.ascending, hh.ordered.old⟩,
      hh.below, hh.covered, hh.few⟩) .noSnapshot

/-- An emptied registry is tidy, if no snapshot was stored. -/
theorem tidy_reset (h : l.store.get? Store.shortTermKey = none) : Tidy (l.reset s).2 := by
  unfold reset
  cases s.writeFault with
  | some reason => exact ⟨History.layered_new _ _, h⟩
  | none =>
      refine ⟨History.layered_new _ _, ?_⟩
      show ((l.store.erase Store.longTermKey).erase Store.shortTermKey).get? _ = none
      rw [SortedMap.get?_erase, if_pos rfl]

/-- A start without a snapshot leaves the registry tidy. -/
theorem tidy_init (h : l.store.get? Store.shortTermKey = none) (s : Surroundings) :
    Tidy (l.init s).2 := by
  obtain ⟨hload, hcleared⟩ := load_of_noSnapshot (s := s) h s.chain.currentHeight
  have hresumes : ¬ l.resumes s = true := fun hresumes => hload (resumes_iff.1 hresumes).1
  refine lasting_tidy.init ?_
  unfold foundation
  dsimp only
  rw [if_neg hresumes, hcleared]
  split
  · exact tidy_reset h
  · exact tidy_reset (l := l.cleared) h

theorem Tidy.detach (h : Tidy l)
    (hnear : 0 < l.history.oldLimit → ∀ r, (l.history.rewind (height - 1)).1 ≠ .fromArchive r) :
    Tidy (l.detach s height).2 := by
  obtain ⟨hlayered, hstore⟩ := h
  rcases detach_cases l s height with
    ⟨r, -, hr, heq⟩ | ⟨r, sample, hrewind, hr, heq⟩ | ⟨-, heq⟩
  · rw [heq]
    exact ⟨hlayered.rewind_to_recent hr, hstore⟩
  · have hlimit : l.history.oldLimit = 0 :=
      Nat.eq_zero_of_not_pos fun hpos => hnear hpos r hrewind
    have harchived : Tidy { l with head := r, history := archivedBelow l.history sample } :=
      ⟨hlayered.rewind_to_archive hlimit hr, hstore⟩
    rw [heq]
    exact lasting_tidy.replay harchived s _
  · rw [heq]
    exact tidy_init hstore s

theorem Roams.tidy (h : Roams l) : Tidy l := by
  induction h with
  | init s noSnapshot => exact tidy_init noSnapshot s
  | add _ _ _ _ _ ih => exact lasting_tidy.addBlock ih
  | addAlt _ _ _ _ _ ih => exact lasting_tidy.addAltBlock ih
  | detach _ _ _ near ih => exact ih.detach near

/-! ## After a way back into the archive -/

/-- What blocks above an archived registry add to the old quorums. -/
theorem lasting_regrown {past : List Nat} {base limit : Nat} (hlimit : 0 < limit) :
    Lasting fun l => l.history.Regrown past base l.head.height ∧ base ≤ l.head.height ∧
      l.history.oldLimit = limit :=
  .ofHistory (P := fun h top => h.Regrown past base top ∧ base ≤ top ∧ h.oldLimit = limit)
    (fun {h previous} hh => ⟨hh.1.push hh.2.1 (by rw [hh.2.2]; exact hlimit) rfl,
      Nat.le_succ_of_le hh.2.1, (History.oldLimit_push _ _ _).trans hh.2.2⟩)
    fun _ hh => ⟨⟨hh.1.recent, hh.1.old⟩, hh.2⟩

/-- The old quorums after a way back into the archive and any blocks. -/
theorem Tidy.regrown (h : Tidy l) (hlimit : 0 < l.history.oldLimit) {sample : Registry}
    (hrewind : (l.history.rewind (height - 1)).1 = .fromArchive sample)
    (hextends : Extends (l.detach s height).2 l') :
    (∃ k ∈ l.history.old.toList.map (·.height), sample.height ≤ k) ∧
      l'.history.Regrown (l.history.old.toList.map (·.height)) sample.height l'.head.height ∧
      l'.history.oldLimit = l.history.oldLimit := by
  obtain ⟨hlayered, -⟩ := h
  obtain ⟨k, hr, heq⟩ := detach_from_archive hrewind s
  have hheight := (hlayered.ordered.archive k sample hr).1
  obtain ⟨e, he, hle⟩ := hlayered.covered hlimit k sample hr
  have hstart := History.regrown_of_empty (h := archivedBelow l.history k) rfl hlayered.few
    sample.height
  have hreplayed := (lasting_regrown hlimit).replay
    (l := { l with head := sample, history := archivedBelow l.history k })
    ⟨hstart, Nat.le_refl _, rfl⟩ s (List.range' (sample.height + 1)
      (min height s.chain.currentHeight - (sample.height + 1)))
  rw [heq] at hextends
  obtain ⟨hregrown, -, hsame⟩ := (lasting_regrown hlimit).extended hreplayed hextends
  exact ⟨⟨e.height, List.mem_map_of_mem he, by omega⟩, hregrown, hsame⟩

end Runs

/-! ## Order kept and lost -/

/-- Old quorums are in the order of their heights while no way back ends at an archived registry.
After one that does, they are in order exactly while no height from that registry on has grown
old again, and once as many have as are kept. -/
theorem Roams.old_ascends {l : LiveRegistry} (h : Roams l) :
    (l.history.old.toList.map (·.height)).Pairwise (· < ·) ∧
      ∀ (s : Surroundings) (height : Nat) (sample : Registry), 0 < l.history.oldLimit →
        (l.history.rewind (height - 1)).1 = .fromArchive sample →
        ∀ l', Extends (l.detach s height).2 l' →
          ((l'.history.old.toList.map (·.height)).Pairwise (· < ·) ↔
            (sample.height + 1 < l'.head.height →
              sample.height ≤ History.cullHeight l'.head.height →
              sample.height + l.history.oldLimit ≤
                History.cullHeight l'.head.height + 1)) := by
  have htidy := h.tidy
  refine ⟨htidy.1.ordered.ascending, ?_⟩
  intro s height sample hlimit hrewind l' hextends
  obtain ⟨hover, hregrown, hsame⟩ := htidy.regrown hlimit hrewind hextends
  rw [← hsame]
  refine hregrown.ascends_iff htidy.1.ordered.ascending ?_ hover
  rw [List.length_map, hsame]
  exact htidy.1.few

/-- Three blocks, a way back to the first registry, which was archived, and two blocks again: its
height stands twice among the old ones, all of which are kept. -/
theorem Roams.old_repeats : ∃ l s l' sample, Roams l ∧ 0 < l.history.oldLimit ∧
    (l.history.rewind 0).1 = .fromArchive sample ∧ Extends (l.detach s 1).2 l' ∧
    l.history.old.toList.map (·.height) = [0] ∧ l'.history.old.toList.map (·.height) = [0, 0] ∧
    ¬ (l'.history.old.toList.map (·.height)).Pairwise (· < ·) := by
  let s : Surroundings := .trusting
  let take (l : LiveRegistry) (height : Nat) := (l.addBlock s (.plain height .v21) [] none).2
  let l := take (take (take ((start .remembering ∅ []).init s).2 1) 2) 3
  let l' := take (take (l.detach s 1).2 1) 2
  have hl : Roams l := .add _ _ _ _ (.add _ _ _ _ (.add _ _ _ _ (.init _ rfl)))
  have hextends : Extends (l.detach s 1).2 l' := .add _ _ _ _ (.add _ _ _ _ .refl)
  have hrewind : (l.history.rewind 0).1 = .fromArchive (.new 0) := by decide +kernel
  have hlimit : 0 < l.history.oldLimit := by decide +kernel
  have hiff := hl.old_ascends.2 s 1 (.new 0) hlimit hrewind l' hextends
  refine ⟨l, s, l', .new 0, hl, hlimit, hrewind, hextends, by decide +kernel, by decide +kernel,
    fun hascending => ?_⟩
  have hfew : ¬ 0 + l.history.oldLimit ≤ History.cullHeight l'.head.height + 1 := by decide +kernel
  exact hfew (hiff.1 hascending (by decide +kernel) (Nat.zero_le _))

end LiveRegistry

end StakeRegistry
