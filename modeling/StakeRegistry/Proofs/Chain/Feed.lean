import StakeRegistry.Proofs.Quorum.Ancestry
import StakeRegistry.Transition.Expiry

/-!
# Chains that are fed in

A chain as the blocks, with their transactions, that are fed to a registry one by one
(`Feed`), and readers that show the part of it below some height (`ChainReader.Shows`). What a
block asks of the chain lies below it, so readers that show enough answer alike:

* `pulseEntropy_congr`: the entropy of the block's Pulse quorum;
* `registeredOnePeriodBack_congr`: the registrations of one lock period back.

Any feed whose blocks differ can be read so (`Feed.shows_reader`).
-/

set_option autoImplicit false

namespace StakeRegistry

/-- Blocks with their transactions. -/
abbrev Feed := List (Block × List Transaction)

/-- What makes a feed a chain on which service nodes begin above `start`: from there on every
block has a fork with service nodes, and parents lie below their children. -/
structure Feed.IsChain (feed : Feed) (start : Nat) : Prop where
  fork : ∀ e ∈ feed, start < e.1.height → HardFork.serviceNodes ≤ e.1.fork
  parent : ∀ e ∈ feed, ∀ p ∈ feed, p.1.hash = e.1.prevHash → p.1.height < e.1.height

/-- A reader shows exactly the blocks of a feed below a height, with their transactions. Its
own height is one more than that of the last block. -/
structure ChainReader.Shows (reader : ChainReader) (feed : Feed) (top : Nat) : Prop where
  at_iff : ∀ height b, reader.blockAt? height = some b ↔
    b.height = height ∧ height < top ∧ ∃ txs, (b, txs) ∈ feed
  hash_iff : ∀ hash b, reader.blockByHash? hash = some b ↔
    b.hash = hash ∧ b.height < top ∧ ∃ txs, (b, txs) ∈ feed
  transactions : ∀ e ∈ feed, e.1.height < top → reader.transactionsOf e.1 = e.2
  lt_currentHeight_iff : ∀ height, height < reader.currentHeight ↔
    ∃ e ∈ feed, height ≤ e.1.height ∧ e.1.height < top

/-! ## Options that hold the same values -/

theorem eq_of_forall_eq_some_iff {α : Type} {x y : Option α}
    (h : ∀ a, x = some a ↔ y = some a) : x = y := by
  cases x with
  | some a => exact ((h a).1 rfl).symm
  | none =>
      cases y with
      | none => rfl
      | some a => exact (h a).2 rfl

namespace ChainReader.Shows

variable {reader reader' : ChainReader} {feed : Feed} {top top' : Nat}

/-- A reader's height is at most that up to which it shows blocks. -/
theorem currentHeight_le (h : reader.Shows feed top) : reader.currentHeight ≤ top := by
  by_cases hlt : top < reader.currentHeight
  · obtain ⟨e, -, hle, hlow⟩ := (h.lt_currentHeight_iff top).1 hlt
    omega
  · omega

/-- A reader's height is that up to which it shows blocks, when there is a block just
below. -/
theorem currentHeight_eq (h : reader.Shows feed (top + 1)) {e : Block × List Transaction}
    (he : e ∈ feed) (hheight : e.1.height = top) : reader.currentHeight = top + 1 := by
  have hle := h.currentHeight_le
  have hlt : top < reader.currentHeight :=
    (h.lt_currentHeight_iff top).2 ⟨e, he, by omega, by omega⟩
  omega

/-- The block of a height in the feed is the one that a reader shows there. -/
theorem blockAt?_eq (h : reader.Shows feed top) {b : Block} {txs : List Transaction}
    (hb : (b, txs) ∈ feed) (hlow : b.height < top) : reader.blockAt? b.height = some b :=
  (h.at_iff b.height b).2 ⟨rfl, hlow, txs, hb⟩

/-- A block that a reader shows is in the feed, with the transactions that it shows. -/
theorem mem_of_blockAt? (h : reader.Shows feed top) {height : Nat} {b : Block}
    (hb : reader.blockAt? height = some b) :
    b.height = height ∧ height < top ∧ (b, reader.transactionsOf b) ∈ feed := by
  obtain ⟨hheight, hlow, txs, hmem⟩ := (h.at_iff height b).1 hb
  have htxs := h.transactions (b, txs) hmem (by rw [hheight]; exact hlow)
  exact ⟨hheight, hlow, by rw [htxs]; exact hmem⟩

/-- Below its top a reader shows one block at each height. -/
theorem eq_of_height (h : reader.Shows feed top) {e e' : Block × List Transaction} (he : e ∈ feed)
    (he' : e' ∈ feed) (hheight : e.1.height = e'.1.height) (hlow : e'.1.height < top) :
    e = e' := by
  obtain ⟨b, txs⟩ := e
  obtain ⟨b', txs'⟩ := e'
  dsimp only at hheight hlow
  have hb := h.blockAt?_eq he (by omega)
  rw [hheight, h.blockAt?_eq he' hlow] at hb
  cases hb
  have htxs := h.transactions _ he hlow
  rw [h.transactions _ he' hlow] at htxs
  dsimp only at htxs
  rw [htxs]

section Agreement

variable (h : reader.Shows feed top) (h' : reader'.Shows feed top')

include h h'

theorem blockAt?_congr {height : Nat} (hlow : height < top) (hlow' : height < top') :
    reader'.blockAt? height = reader.blockAt? height := by
  refine eq_of_forall_eq_some_iff fun b => ?_
  rw [h'.at_iff, h.at_iff]
  constructor
  · rintro ⟨hheight, -, hmem⟩
    exact ⟨hheight, hlow, hmem⟩
  · rintro ⟨hheight, -, hmem⟩
    exact ⟨hheight, hlow', hmem⟩

/-- Readers find the same block by a hash that all blocks with it lie below both tops. -/
theorem blockByHash?_congr {hash : Hash}
    (hlow : ∀ p ∈ feed, p.1.hash = hash → p.1.height < top ∧ p.1.height < top') :
    reader'.blockByHash? hash = reader.blockByHash? hash := by
  refine eq_of_forall_eq_some_iff fun b => ?_
  rw [h'.hash_iff, h.hash_iff]
  constructor
  · rintro ⟨hhash, -, txs, hmem⟩
    exact ⟨hhash, (hlow _ hmem hhash).1, txs, hmem⟩
  · rintro ⟨hhash, -, txs, hmem⟩
    exact ⟨hhash, (hlow _ hmem hhash).2, txs, hmem⟩

/-- Readers share the ancestors of the blocks below both tops. -/
theorem sharesAncestry {start : Nat} (hchain : feed.IsChain start) :
    reader.SharesAncestry reader' fun hash =>
      ∀ p ∈ feed, p.1.hash = hash → p.1.height < top ∧ p.1.height < top' where
  same _ hknown := blockByHash?_congr h h' hknown
  parent hash b hknown hb p hp hhash := by
    -- A parent lies below its child, which lies below both tops.
    obtain ⟨rfl, hlow, txs, hmem⟩ := (h.hash_iff _ _).1 hb
    have hlow' := (hknown _ hmem rfl).2
    have hparent := hchain.parent _ hmem p hp hhash
    dsimp only at hlow' hparent
    omega

/-- Readers agree on the entropy of a block's Pulse quorum. -/
theorem pulseEntropy_congr {start : Nat} (hchain : feed.IsChain start) {b : Block}
    {txs : List Transaction} (hb : (b, txs) ∈ feed) (hlow : b.height ≤ top)
    (hlow' : b.height ≤ top') (suite : CryptoSuite) (round : Nat) :
    pulseEntropy reader' suite b.prevHash round = pulseEntropy reader suite b.prevHash round := by
  refine (sharesAncestry h h' hchain).pulseEntropy_eq suite (fun p hp hhash => ?_) round
  have hparent := hchain.parent (b, txs) hb p hp hhash
  dsimp only at hparent
  omega

end Agreement

end ChainReader.Shows

/-- Readers agree on the registrations of one lock period back, where there is such a
period. -/
theorem registeredOnePeriodBack_congr {ctx ctx' : Context} {feed : Feed} {top top' : Nat}
    (h : ctx.chain.Shows feed top) (h' : ctx'.chain.Shows feed top')
    (hrules : ctx'.rules = ctx.rules) (hsuite : ctx'.suite = ctx.suite)
    (hlock : 0 < ctx.rules.stakingLockBlocks) {height : Nat} (hlow : height ≤ top)
    (hlow' : height ≤ top') :
    registeredOnePeriodBack ctx' height = registeredOnePeriodBack ctx height := by
  unfold registeredOnePeriodBack
  rw [hrules, hsuite]
  split
  · rfl
  · rename_i hperiod
    have hback : height - ctx.rules.stakingLockBlocks < height := by omega
    dsimp only
    rw [h.blockAt?_congr h' (Nat.lt_of_lt_of_le hback hlow) (Nat.lt_of_lt_of_le hback hlow')]
    cases hblock : ctx.chain.blockAt? (height - ctx.rules.stakingLockBlocks) with
    | none => rfl
    | some b =>
        obtain ⟨hheight, -, txs, hmem⟩ := (h.at_iff _ _).1 hblock
        have hshown := h.transactions _ hmem (by dsimp only; omega)
        have hshown' := h'.transactions _ hmem (by dsimp only; omega)
        dsimp only at hshown hshown' ⊢
        rw [hshown, hshown']

/-! ## Reading a feed -/

namespace Feed

/-- The first transaction of a feed with a hash. -/
def transaction? (feed : Feed) (hash : Hash) : Option Transaction :=
  (feed.flatMap (·.2)).find? fun tx => tx.hash == hash

/-- The blocks of a feed below a height, as a reader shows them. -/
def reader (feed : Feed) (top : Nat) : ChainReader :=
  let shown : Feed := feed.filter fun e => decide (e.1.height < top)
  { currentHeight := (shown.map fun e => e.1.height + 1).foldl max 0
    blockAt? := fun height => (shown.find? fun e => e.1.height == height).map (·.1)
    blockByHash? := fun hash => (shown.find? fun e => e.1.hash == hash).map (·.1)
    transaction? := feed.transaction? }

/-- The blocks of a feed differ in height and in hash, and their transactions are those that
they name. -/
structure Consistent (feed : Feed) : Prop where
  heights : (feed.map fun e => e.1.height).Nodup
  hashes : (feed.map fun e => e.1.hash).Nodup
  transactions : ∀ e ∈ feed, e.1.txHashes.filterMap feed.transaction? = e.2

/-- Among items that differ in a field, the one with a value of it is the first one found. -/
theorem find?_eq_some_of_nodup {α β : Type} [DecidableEq β] {f : α → β} {l : List α} {a : α}
    (hl : (l.map f).Nodup) (ha : a ∈ l) : l.find? (fun x => f x == f a) = some a := by
  induction l with
  | nil => cases ha
  | cons b rest ih =>
      rw [List.map_cons, List.nodup_cons] at hl
      rcases List.mem_cons.1 ha with rfl | ha
      · simp
      · have hne : f b ≠ f a := fun heq => hl.1 (heq ▸ List.mem_map.2 ⟨a, ha, rfl⟩)
        rw [List.find?_cons_of_neg (by simpa using hne)]
        exact ih hl.2 ha

theorem find?_shown_iff {β : Type} [DecidableEq β] {feed : Feed} {top : Nat} (f : Block → β)
    (hf : (feed.map fun e => f e.1).Nodup) (value : β) (b : Block) :
    ((feed.filter fun e => decide (e.1.height < top)).find? fun e => f e.1 == value).map (·.1)
      = some b ↔ f b = value ∧ b.height < top ∧ ∃ txs, (b, txs) ∈ feed := by
  constructor
  · intro h
    obtain ⟨⟨b', txs⟩, hfind, rfl⟩ := Option.map_eq_some_iff.1 h
    obtain ⟨hmem, hlow⟩ := List.mem_filter.1 (List.mem_of_find?_eq_some hfind)
    exact ⟨by simpa using List.find?_some hfind, by simpa using hlow, txs, hmem⟩
  · rintro ⟨rfl, hlow, txs, hmem⟩
    -- No two blocks of the feed share what is looked for, so the first found is the block.
    have hnodup : ((feed.filter fun e => decide (e.1.height < top)).map fun e => f e.1).Nodup :=
      hf.sublist (List.filter_sublist.map _)
    have hshown : (b, txs) ∈ feed.filter fun e => decide (e.1.height < top) :=
      List.mem_filter.2 ⟨hmem, by simpa using hlow⟩
    rw [find?_eq_some_of_nodup hnodup hshown]
    rfl

theorem lt_foldl_max_iff (l : List Nat) (start height : Nat) :
    height < l.foldl max start ↔ height < start ∨ ∃ n ∈ l, height < n := by
  induction l generalizing start with
  | nil => simp
  | cons n rest ih =>
      rw [List.foldl_cons, ih]
      simp only [List.mem_cons, exists_eq_or_imp]
      constructor
      · rintro (h | h)
        · rcases Nat.lt_or_ge height start with hs | hs
          · exact Or.inl hs
          · exact Or.inr (Or.inl (by omega))
        · exact Or.inr (Or.inr h)
      · rintro (h | h | h)
        · exact Or.inl (by omega)
        · exact Or.inl (by omega)
        · exact Or.inr h

/-- The reader of a consistent feed shows it. -/
theorem shows_reader {feed : Feed} (h : feed.Consistent) (top : Nat) :
    (feed.reader top).Shows feed top := by
  refine ⟨fun height b => ?_, fun hash b => ?_, fun e he _ => h.transactions e he, ?_⟩
  · refine (find?_shown_iff Block.height h.heights height b).trans ?_
    constructor
    · rintro ⟨rfl, hlow, hmem⟩
      exact ⟨rfl, hlow, hmem⟩
    · rintro ⟨rfl, hlow, hmem⟩
      exact ⟨rfl, hlow, hmem⟩
  · exact find?_shown_iff Block.hash h.hashes hash b
  · intro height
    refine (lt_foldl_max_iff _ _ _).trans ?_
    constructor
    · rintro (hzero | ⟨n, hn, hlt⟩)
      · cases hzero
      · obtain ⟨e, he, rfl⟩ := List.mem_map.1 hn
        obtain ⟨hmem, hlow⟩ := List.mem_filter.1 he
        exact ⟨e, hmem, by omega, by simpa using hlow⟩
    · rintro ⟨e, hmem, hle, hlow⟩
      refine Or.inr ⟨e.1.height + 1, List.mem_map.2 ⟨e, ?_, rfl⟩, by omega⟩
      exact List.mem_filter.2 ⟨hmem, by simpa using hlow⟩

end Feed

end StakeRegistry
