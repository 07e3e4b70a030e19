import StakeRegistry.Proofs.Live.Ageing
import StakeRegistry.Proofs.Live.Branching

/-!
# What lasts through a run

Blocks reach a registry in several ways: they are added, applied again after a start or on the
way back, or belong to other branches. What moving on by one block keeps, and what depends
neither on records and the ledger nor on other branches (`LiveRegistry.Lasting`), all of them
keep. The ways back are told apart by `detach_cases`.
-/

set_option autoImplicit false

namespace StakeRegistry

namespace LiveRegistry

/-- A property that every block keeps, and that rests on the past of the own branch alone. -/
structure Lasting (P : LiveRegistry → Prop) : Prop where
  advance : ∀ {l next : LiveRegistry} {s : Surroundings} {block : Block} {txs : List Transaction}
    {checkpoint : Option Checkpoint} {verify : Bool} {outcome : Outcome}, P l →
      l.advance s block txs checkpoint verify = .ok (outcome, next) → P next
  samePast : ∀ {l l' : LiveRegistry}, P l → l.SamePast l' → P l'
  alternatives : ∀ {l : LiveRegistry} (alternatives : SortedMap Hash Registry), P l →
    P { l with history := { l.history with alternatives := alternatives } }

namespace Lasting

variable {P Q : LiveRegistry → Prop} {l l' : LiveRegistry} {s : Surroundings} {block : Block}
  {txs : List Transaction} {checkpoint : Option Checkpoint}

theorem and (h : Lasting P) (h' : Lasting Q) : Lasting fun l => P l ∧ Q l where
  advance hl hadvance := ⟨h.advance hl.1 hadvance, h'.advance hl.2 hadvance⟩
  samePast hl hpast := ⟨h.samePast hl.1 hpast, h'.samePast hl.2 hpast⟩
  alternatives others hl := ⟨h.alternatives others hl.1, h'.alternatives others hl.2⟩

theorem or (h : Lasting P) (h' : Lasting Q) : Lasting fun l => P l ∨ Q l where
  advance hl hadvance := hl.imp (h.advance · hadvance) (h'.advance · hadvance)
  samePast hl hpast := hl.imp (h.samePast · hpast) (h'.samePast · hpast)
  alternatives others hl := hl.imp (h.alternatives others) (h'.alternatives others)

theorem ofExists {α : Type} {p : α → Prop} {P : α → LiveRegistry → Prop}
    (h : ∀ a, Lasting (P a)) : Lasting fun l => ∃ a, p a ∧ P a l where
  advance := fun ⟨a, ha, hl⟩ hadvance => ⟨a, ha, (h a).advance hl hadvance⟩
  samePast := fun ⟨a, ha, hl⟩ hpast => ⟨a, ha, (h a).samePast hl hpast⟩
  alternatives others := fun ⟨a, ha, hl⟩ => ⟨a, ha, (h a).alternatives others hl⟩

/-- What pushing the head into history keeps lasts. -/
theorem ofHistory {P : History → Nat → Prop}
    (push : ∀ {h : History} {previous : Registry}, P h previous.height →
      P (h.push (previous.height + 1) previous) (previous.height + 1))
    (alternatives : ∀ {h : History} {top : Nat} (alternatives : SortedMap Hash Registry),
      P h top → P { h with alternatives := alternatives } top) :
    Lasting fun l => P l.history l.head.height where
  advance {l next s block txs checkpoint verify outcome} hl hadvance := by
    obtain ⟨head, happly, -, rfl⟩ := advance_eq_ok_iff.1 hadvance
    have hafter : head.height = block.height := Registry.height_of_apply happly
    have hbefore : l.head.height + 1 = block.height := Registry.height_before_apply happly
    show P (l.history.push block.height l.head) head.height
    rw [hafter, ← hbefore]
    exact push hl
  samePast hl hpast := by
    rw [hpast.history, hpast.head]
    exact hl
  alternatives others hl := alternatives others hl

/-- What is stored as short-term data does not depend on blocks. -/
theorem noSnapshot : Lasting fun l => l.store.get? Store.shortTermKey = none where
  advance hl hadvance := by
    obtain ⟨head, -, -, rfl⟩ := advance_eq_ok_iff.1 hadvance
    exact hl
  samePast hl hpast := hpast.short.trans hl
  alternatives _ hl := hl

/-- Blocks applied again keep it, until one of them fails. -/
theorem replay (h : Lasting P) (hl : P l) (s : Surroundings) (heights : List Nat) :
    P (replay s heights l).2 :=
  @replay_induction (fun l _ => P l) l [] s (fun hl hadvance => h.advance hl hadvance) heights hl

theorem addBlock (h : Lasting P) (hl : P l) : P (l.addBlock s block txs checkpoint).2 :=
  @addBlock_induction (fun l _ => P l) l [] s block txs checkpoint
    (fun hl hadvance => h.advance hl hadvance) (fun hl hpast => h.samePast hl hpast) hl

theorem addAltBlock (h : Lasting P) (hl : P l) : P (l.addAltBlock s block txs checkpoint).2 := by
  rcases addAltBlock_cases l s block txs checkpoint with heq | ⟨next, heq⟩
  · rw [heq]
    exact hl
  · rw [heq]
    exact h.alternatives _ hl

/-- Whatever is built on top of a registry keeps it. -/
theorem extended (h : Lasting P) (hl : P l) (hextends : Extends l l') : P l' := by
  induction hextends with
  | refl => exact hl
  | add _ _ _ _ _ ih => exact h.addBlock ih
  | addAlt _ _ _ _ _ ih => exact h.addAltBlock ih

/-- A start keeps what holds of that which it builds upon. -/
theorem init (h : Lasting P) (hl : P (l.foundation s)) : P (l.init s).2 := by
  rw [init_eq_replay]
  exact h.replay hl s _

end Lasting

/-! ## The ways back -/

/-- The history after going back into the archive. -/
def archivedBelow (h : History) (sample : Nat) : History :=
  { h with recent := ∅, archive := h.archive.filter fun k _ => decide (k < sample) }

/-- Going back ends at a recent registry, at what blocks above an archived one lead to, or at
what a new start leads to. -/
theorem detach_cases (l : LiveRegistry) (s : Surroundings) (height : Nat) :
    (∃ r, (l.history.rewind (height - 1)).1 = .restored r ∧
      l.history.recent.get? (height - 1) = some r ∧
      (l.detach s height).2 = { l with
        head := r
        history := { l.history with
          recent := l.history.recent.filter fun k _ => decide (k < height - 1) } }) ∨
    (∃ r sample, (l.history.rewind (height - 1)).1 = .fromArchive r ∧
      l.history.archive.get? sample = some r ∧
      (l.detach s height).2 =
        (replayBelow { l with head := r, history := archivedBelow l.history sample } s
          (min height s.chain.currentHeight)).2) ∨
    ((l.history.rewind (height - 1)).1 = .reinitialise ∧
      (l.detach s height).2 =
        (init { l with history := { l.history with recent := ∅, archive := ∅ } } s).2) := by
  unfold detach History.rewind
  cases hrecent : History.fullAt? l.history.recent (height - 1) with
  | some r => exact .inl ⟨r, rfl, (fullAt?_eq_some hrecent).1, rfl⟩
  | none =>
      dsimp only
      generalize (height - 1) - (height - 1) % archiveInterval = sample
      cases harchive : History.fullAt? l.history.archive sample with
      | some r => exact .inr (.inl ⟨r, sample, rfl, (fullAt?_eq_some harchive).1, rfl⟩)
      | none => exact .inr (.inr ⟨rfl, rfl⟩)

/-- Going back to an archived registry goes on with blocks on top of it. -/
theorem detach_from_archive {l : LiveRegistry} {height : Nat} {r : Registry}
    (hrewind : (l.history.rewind (height - 1)).1 = .fromArchive r) (s : Surroundings) :
    ∃ sample, l.history.archive.get? sample = some r ∧ (l.detach s height).2 =
      (replayBelow { l with head := r, history := archivedBelow l.history sample } s
        (min height s.chain.currentHeight)).2 := by
  rcases detach_cases l s height with
    ⟨r', hrestored, -, -⟩ | ⟨r', sample, hrewind', hr, heq⟩ | ⟨hnothing, -⟩
  · rw [hrewind] at hrestored
    cases hrestored
  · rw [hrewind] at hrewind'
    cases hrewind'
    exact ⟨sample, hr, heq⟩
  · rw [hrewind] at hnothing
    cases hnothing

end LiveRegistry

end StakeRegistry
