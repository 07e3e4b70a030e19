import StakeRegistry.Live.Blocks

/-!
# A load that fails

Loading forgets the head and its past before it reads anything. So a load that does not succeed,
because the store cannot be read or holds no snapshot that can be restored, does not leave the
registry as it was. Main statements:

* `loading`: all that loading can come to;
* `load_forgets`: what a load that does not succeed has forgotten, at whatever point it fails.
-/

set_option autoImplicit false

namespace StakeRegistry

namespace LiveRegistry

variable {l : LiveRegistry} {s : Surroundings} {currentHeight : Nat}

/-- What loading can come to. -/
inductive Loading (l : LiveRegistry) (s : Surroundings) (currentHeight : Nat) :
    LiveResult RegistryError Bool → Prop where
  /-- A part of the snapshot cannot be read. -/
  | unread {reason : String} (fault : s.faultWithin 2 = some reason) :
      Loading l s currentHeight (.error (.store (.backend reason)), l.cleared)
  /-- There is no snapshot, or it cannot be restored. -/
  | absent (read : s.faultWithin 2 = none) (missing : l.cleared.snapshot? s currentHeight = none) :
      Loading l s currentHeight (.ok false, l.cleared)
  /-- The snapshot is in place, and the records cannot be read. -/
  | broken {r : Restored} {reason : String} (read : s.faultWithin 2 = none)
      (found : l.cleared.snapshot? s currentHeight = some r)
      (fault : s.faultWithin 3 = some reason) :
      Loading l s currentHeight (.error (.store (.backend reason)),
        { l.cleared with head := r.head, history := r.history, records := ∅ })
  | loaded {r : Restored} (read : s.faultWithin 3 = none)
      (found : l.cleared.snapshot? s currentHeight = some r) :
      Loading l s currentHeight (.ok true,
        { l.cleared with
          head := r.head
          history := r.history
          records := l.storedRecords }.fillTransport s)

theorem loading (l : LiveRegistry) (s : Surroundings) (currentHeight : Nat) :
    Loading l s currentHeight (l.load s currentHeight) := by
  unfold load
  split
  · rename_i hfault
    exact .unread hfault
  · rename_i hread
    split
    · rename_i hmissing
      exact .absent hread hmissing
    · rename_i hfound
      dsimp only
      split
      · rename_i hfault
        exact .broken hread hfound hfault
      · rename_i hrecords
        exact .loaded hrecords hfound

/-- What was loaded is what the snapshot restores. -/
theorem load_eq_ok (h : (l.load s currentHeight).1 = .ok true) :
    ∃ restored, l.cleared.snapshot? s currentHeight = some restored ∧
      (l.load s currentHeight).2.settings = l.settings ∧
      (l.load s currentHeight).2.head = restored.head ∧
      (l.load s currentHeight).2.history = restored.history := by
  have hloading := loading l s currentHeight
  generalize l.load s currentHeight = result at h hloading
  cases hloading with
  | unread => cases h
  | absent => cases h
  | broken => cases h
  | @loaded r _ found => exact ⟨r, found, rfl, rfl, rfl⟩

/-- Loading keeps the settings, the store and what is known of it. -/
theorem load_keeps (l : LiveRegistry) (s : Surroundings) (currentHeight : Nat) :
    (l.load s currentHeight).2.settings = l.settings ∧
      (l.load s currentHeight).2.savedVersion = l.savedVersion ∧
      (l.load s currentHeight).2.store = l.store := by
  have hloading := loading l s currentHeight
  generalize l.load s currentHeight = result at hloading
  cases hloading <;> exact ⟨rfl, rfl, rfl⟩

/-- Loading from a store without a snapshot empties the registry. -/
theorem load_of_noSnapshot (h : l.store.get? Store.shortTermKey = none) (currentHeight : Nat) :
    (l.load s currentHeight).1 ≠ .ok true ∧ (l.load s currentHeight).2 = l.cleared := by
  have hnone : l.cleared.snapshot? s currentHeight = none := by
    have hshort : l.cleared.storedData? Store.shortTermKey = none := by
      unfold storedData?
      show (l.store.get? Store.shortTermKey).bind _ = none
      rw [h]
      rfl
    unfold snapshot?
    rw [hshort]
    rfl
  have hloading := loading l s currentHeight
  generalize l.load s currentHeight = result at hloading
  cases hloading with
  | unread => exact ⟨by simp, rfl⟩
  | absent => exact ⟨by simp, rfl⟩
  | broken _ found => cases hnone.symm.trans found
  | loaded _ found => cases hnone.symm.trans found

theorem cleared_eq_iff (l : LiveRegistry) :
    l.cleared = l ↔ l.head = Registry.new l.settings.startHeight ∧
      l.history = History.new l.history.oldLimit ∧ l.recentlyExpired = ∅ := by
  constructor
  · intro h
    exact ⟨(congrArg head h).symm, (congrArg history h).symm, (congrArg recentlyExpired h).symm⟩
  · rintro ⟨hhead, hhistory, hexpired⟩
    unfold cleared
    rw [← hhead, ← hhistory, ← hexpired]

/-- Whatever a registry has in memory and in its store: a load that does not succeed because the
snapshot cannot be read, is not there or cannot be restored leaves the registry cleared. That
leaves it as it was exactly if it stood at the first height, without a past and without nodes that
expired of late. A load that fails because the records cannot be read puts the snapshot in the
place of the head and its past, and forgets all records. -/
theorem load_forgets (h : (l.load s currentHeight).1 ≠ .ok true) :
    ((s.faultWithin 2).isSome = true ∨ l.cleared.snapshot? s currentHeight = none) ∧
      (l.load s currentHeight).2 = l.cleared ∧
      ((l.load s currentHeight).2 = l ↔ l.head = Registry.new l.settings.startHeight ∧
        l.history = History.new l.history.oldLimit ∧ l.recentlyExpired = ∅) ∨
    ∃ r reason, l.cleared.snapshot? s currentHeight = some r ∧ s.faultWithin 2 = none ∧
      s.faultWithin 3 = some reason ∧
      l.load s currentHeight = (.error (.store (.backend reason)),
        { l.cleared with head := r.head, history := r.history, records := ∅ }) := by
  have hloading := loading l s currentHeight
  generalize l.load s currentHeight = result at h hloading
  cases hloading with
  | unread fault =>
      exact .inl ⟨.inl (Option.isSome_iff_exists.2 ⟨_, fault⟩), rfl, l.cleared_eq_iff⟩
  | absent read missing => exact .inl ⟨.inr missing, rfl, l.cleared_eq_iff⟩
  | @broken r reason read found fault => exact .inr ⟨r, reason, found, read, fault, rfl⟩
  | loaded => exact absurd rfl h

/-- A registry that stands at height two, and whose store is empty, loses its head to a load. -/
theorem load_forgets_head :
    ∃ (l : LiveRegistry) (s : Surroundings), l.head.height = 2 ∧ l.store = ∅ ∧
      (l.load s 3).1 = .ok false ∧ (l.load s 3).2.head.height = 0 ∧ (l.load s 3).2 ≠ l := by
  let l : LiveRegistry :=
    { start ⟨.fakechain, 0, false, [⟨.v7, 0⟩, ⟨.v21, 1⟩], none⟩ ∅ [] with head := Registry.new 2 }
  let s : Surroundings :=
    ⟨.standard, ⟨3, fun _ => none, fun _ => none, fun _ => none⟩, 0, none, none, 0⟩
  have hanswer : (l.load s 3).1 = .ok false := rfl
  have hfailed : (l.load s 3).1 ≠ .ok true := by
    rw [hanswer]
    simp
  refine ⟨l, s, rfl, rfl, hanswer, rfl, ?_⟩
  rcases load_forgets hfailed with ⟨-, -, hsame⟩ | ⟨_, _, -, -, hfault, -⟩
  · intro heq
    cases congrArg Registry.height (hsame.1 heq).1
  · cases hfault

end LiveRegistry

end StakeRegistry
