import StakeRegistry.Live.Blocks
import StakeRegistry.Proofs.Transition.Step

/-!
# What effects leave alone

The effects of a block touch what is known of nodes and the ledger. The head, its past, the
settings and the stored snapshots stay (`LiveRegistry.SamePast`), and `addBlock` is `advance`
as far as these are concerned.
-/

set_option autoImplicit false

namespace StakeRegistry

/-! ## Keys of the store -/

theorem Store.recordKey_ne_shortTermKey (node : PublicKey) : recordKey node ≠ shortTermKey := by
  intro h
  have hhead : (recordKey node).take 4 = shortTermKey.take 4 := by rw [h]
  simp [recordKey, recordTag, shortTermKey, asciiBytes] at hhead

theorem Store.recordKey_ne_longTermKey (node : PublicKey) : recordKey node ≠ longTermKey := by
  intro h
  have hhead : (recordKey node).take 4 = longTermKey.take 4 := by rw [h]
  simp [recordKey, recordTag, longTermKey, asciiBytes] at hhead

namespace LiveRegistry

/-- The second registry is the first, with some records. -/
def ButRecords (l l' : LiveRegistry) : Prop := ∃ records, l' = { l with records := records }

namespace ButRecords

theorem refl (l : LiveRegistry) : l.ButRecords l := ⟨l.records, rfl⟩

theorem trans {l l' l'' : LiveRegistry} (h : l.ButRecords l') (h' : l'.ButRecords l'') :
    l.ButRecords l'' := by
  obtain ⟨_, rfl⟩ := h
  obtain ⟨records, rfl⟩ := h'
  exact ⟨records, rfl⟩

theorem foldl {α : Type} {f : LiveRegistry → α → LiveRegistry}
    (hf : ∀ (l : LiveRegistry) (a : α), l.ButRecords (f l a)) (as : List α) (l : LiveRegistry) :
    l.ButRecords (as.foldl f l) := by
  induction as generalizing l with
  | nil => exact refl l
  | cons a as ih => exact (hf l a).trans (ih (f l a))

theorem changeRecord (l : LiveRegistry) (node : PublicKey) (f : NodeRecord → NodeRecord) :
    l.ButRecords (l.changeRecord node f) := ⟨_, rfl⟩

theorem noteRegistered (l : LiveRegistry) (node : PublicKey) (f : NodeRecord → NodeRecord) :
    l.ButRecords (l.noteRegistered node f) := by
  unfold LiveRegistry.noteRegistered
  split
  · exact changeRecord l node f
  · exact refl l

theorem changeRecords (l : LiveRegistry) (outcome : Outcome) :
    l.ButRecords (l.changeRecords outcome) :=
  ((foldl (fun l node => changeRecord l node _) _ l).trans
    (foldl (fun l node => changeRecord l node _) _ _)).trans
    (foldl (fun l (p : PublicKey × Nat) => changeRecord l p.1 _) _ _)

theorem noteSigners (l : LiveRegistry) (block : Block) (validators : List PublicKey) :
    l.ButRecords (l.noteSigners block validators) :=
  foldl (fun l (p : PublicKey × Nat) => noteRegistered l p.1 _) _ l

theorem notePulse (l : LiveRegistry) (s : Surroundings) (block : Block) :
    l.ButRecords (l.notePulse s block).2 := by
  unfold LiveRegistry.notePulse
  split
  · split
    · exact refl l
    · dsimp only
      split
      · exact refl l
      · split
        · exact noteSigners l block _
        · exact noteSigners l block _
  · exact refl l

end ButRecords

/-- Both registries agree in settings, head, history and stored snapshots. -/
structure SamePast (l l' : LiveRegistry) : Prop where
  settings : l'.settings = l.settings
  head : l'.head = l.head
  history : l'.history = l.history
  savedVersion : l'.savedVersion = l.savedVersion
  short : l'.store.get? Store.shortTermKey = l.store.get? Store.shortTermKey
  long : l'.store.get? Store.longTermKey = l.store.get? Store.longTermKey

namespace SamePast

theorem refl (l : LiveRegistry) : l.SamePast l := ⟨rfl, rfl, rfl, rfl, rfl, rfl⟩

theorem trans {l l' l'' : LiveRegistry} (h : l.SamePast l') (h' : l'.SamePast l'') :
    l.SamePast l'' :=
  ⟨h'.settings.trans h.settings, h'.head.trans h.head, h'.history.trans h.history,
    h'.savedVersion.trans h.savedVersion, h'.short.trans h.short, h'.long.trans h.long⟩

theorem view {l l' : LiveRegistry} (h : l.SamePast l') : l'.view = l.view := by
  unfold LiveRegistry.view
  rw [h.head, h.history]

theorem ofButRecords {l l' : LiveRegistry} (h : l.ButRecords l') : l.SamePast l' := by
  obtain ⟨records, rfl⟩ := h
  exact ⟨rfl, rfl, rfl, rfl, rfl, rfl⟩

theorem noteExpired (l : LiveRegistry) (outcome : Outcome) : l.SamePast (l.noteExpired outcome) :=
  ⟨rfl, rfl, rfl, rfl, rfl, rfl⟩

theorem forgetExpired (l : LiveRegistry) : l.SamePast l.forgetExpired :=
  ⟨rfl, rfl, rfl, rfl, rfl, rfl⟩

/-- Folds that leave the value of a key alone at each step leave it alone. -/
theorem get?_foldl {f : Store → PublicKey → Store} {key : List UInt8}
    (hf : ∀ store node, (f store node).get? key = store.get? key) (nodes : List PublicKey)
    (store : Store) : (nodes.foldl f store).get? key = store.get? key := by
  induction nodes generalizing store with
  | nil => rfl
  | cons node nodes ih => rw [List.foldl_cons, ih, hf]

/-- A key that belongs to no record keeps its value, whatever records are stored. -/
theorem get?_saveRecords (l : LiveRegistry) (s : Surroundings) (nodes : List PublicKey)
    {key : List UInt8} (hkey : ∀ node, Store.recordKey node ≠ key) :
    (l.saveRecords s nodes).store.get? key = l.store.get? key := by
  unfold LiveRegistry.saveRecords
  split
  · rfl
  · refine get?_foldl (fun store node => ?_) nodes l.store
    split
    · exact SortedMap.get?_insert_of_ne _ _ (hkey node).symm
    · rfl

theorem saveRecords (l : LiveRegistry) (s : Surroundings) (nodes : List PublicKey) :
    l.SamePast (l.saveRecords s nodes) := by
  refine ⟨?_, ?_, ?_, ?_, get?_saveRecords l s nodes Store.recordKey_ne_shortTermKey,
    get?_saveRecords l s nodes Store.recordKey_ne_longTermKey⟩ <;>
  · unfold LiveRegistry.saveRecords
    split <;> rfl

theorem takeEffects (l : LiveRegistry) (s : Surroundings) (outcome : Outcome) :
    l.SamePast (l.takeEffects s outcome) := by
  have hnoted : l.SamePast ((l.changeRecords outcome).noteExpired outcome) :=
    (ofButRecords (.changeRecords l outcome)).trans (noteExpired _ outcome)
  refine hnoted.trans (SamePast.trans ?_ (saveRecords _ s _))
  exact ⟨rfl, rfl, rfl, rfl, rfl, rfl⟩

/-- All that follows the new head of a block leaves it and its past alone. -/
theorem afterBlock (l : LiveRegistry) (s : Surroundings) (outcome : Outcome) (block : Block) :
    l.SamePast ((l.takeEffects s outcome).notePulse s block).2.forgetExpired :=
  ((takeEffects l s outcome).trans (ofButRecords (.notePulse _ s block))).trans (forgetExpired _)

end SamePast

/-! ## Adding a block -/

section Advance

variable {l next : LiveRegistry} {s : Surroundings} {block : Block} {txs : List Transaction}
  {checkpoint : Option Checkpoint} {verify : Bool} {outcome : Outcome}

/-- A block is applied to the head first and verified after that. -/
theorem advance_verified_eq :
    l.advance s block txs checkpoint true =
      match l.head.apply (l.context s l.view) block txs with
      | .error e => .error e
      | .ok (head, outcome) =>
          match verifyBlock (l.context s ((HistoryView.of head l.history).withPrevious l.head))
            block false checkpoint with
          | .error e => .error (.block e)
          | .ok _ =>
              .ok (outcome,
                { l with head := head, history := l.history.push block.height l.head }) := by
  unfold advance
  cases l.head.apply (l.context s l.view) block txs with
  | error e => rfl
  | ok p =>
      obtain ⟨head, outcome⟩ := p
      dsimp only
      generalize hanswer : verifyBlock (l.context s
        ((HistoryView.of head l.history).withPrevious l.head)) block false checkpoint = answer
      show (do
        (verifyBlock (l.context s ((HistoryView.of head l.history).withPrevious l.head)) block
          false checkpoint).mapError RegistryError.block
        return _ : Except RegistryError _) = _
      rw [hanswer]
      cases answer with
      | error e => rfl
      | ok _ => rfl

/-- What the head moving on means: the block applies to it, verifies if that is asked, and the
old head goes into history. -/
theorem advance_eq_ok_iff :
    l.advance s block txs checkpoint verify = .ok (outcome, next) ↔
      ∃ head, l.head.apply (l.context s l.view) block txs = .ok (head, outcome) ∧
        (verify = true →
          verifyBlock (l.context s ((HistoryView.of head l.history).withPrevious l.head)) block
            false checkpoint = .ok ()) ∧
        next = { l with head := head, history := l.history.push block.height l.head } := by
  unfold advance
  constructor
  · intro h
    obtain ⟨⟨head, outcome'⟩, happly, h⟩ := bind_eq_ok_iff.1 h
    cases verify with
    | false =>
        cases h
        exact ⟨head, happly, by simp, rfl⟩
    | true =>
        obtain ⟨⟨⟩, hverify, h⟩ := bind_eq_ok_iff.1 h
        cases h
        refine ⟨head, happly, fun _ => ?_, rfl⟩
        generalize verifyBlock _ block false checkpoint = answer at hverify
        cases answer with
        | ok _ => rfl
        | error e => cases hverify
  · rintro ⟨head, happly, hverify, rfl⟩
    refine bind_eq_ok_iff.2 ⟨(head, outcome), happly, ?_⟩
    cases verify with
    | false => rfl
    | true =>
        refine bind_eq_ok_iff.2 ⟨(), ?_, rfl⟩
        rw [hverify rfl]
        rfl

end Advance

end LiveRegistry

end StakeRegistry
