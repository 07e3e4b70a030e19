import StakeRegistry.Proofs.Transition.Applied
import StakeRegistry.Proofs.Transition.BlsKeys
import StakeRegistry.Proofs.Transition.Moves

/-!
# Who expires on a chain

The blocks that a registry rests on, from the empty registry on (`Registry.Built`), and the heights
at which nodes with some BLS key expire in them (`ExpiredAt`). Such a height opens a window of some
blocks. A window that is open lasts to its end, however often the key expires again in it
(`windowEnd`). Main statements:

* `Applied.expires_iff`: a block lists a BLS key as expired exactly if it takes away the entry of a
  node with that key before its transactions;
* `Registry.Built.expiredAt_bridge_iff`: unless the key is zero, the node came through the bridge;
* `Registry.Built.windowEnd_sound`, `Registry.Built.windowEnd_eq`: the window on record is one that
  an expiry has opened, and every expiry that is far enough behind the others opens one.
-/

set_option autoImplicit false

namespace StakeRegistry

/-! ## The blocks below a registry -/

/-- The blocks of a chain up to a height. -/
def upTo (chain : List Applied) (height : Nat) : List Applied :=
  chain.filter fun a => decide (a.block.height ≤ height)

theorem upTo_append_of_lt (chain : List Applied) {a : Applied} {height : Nat}
    (hlater : height < a.block.height) : upTo (chain ++ [a]) height = upTo chain height := by
  unfold upTo
  rw [List.filter_append, List.filter_singleton, decide_eq_false (by omega), cond_false,
    List.append_nil]

theorem upTo_upTo (chain : List Applied) {low high : Nat} (hle : low ≤ high) :
    upTo (upTo chain high) low = upTo chain low := by
  unfold upTo
  rw [List.filter_filter]
  refine List.filter_congr fun a _ => ?_
  by_cases hlow : a.block.height ≤ low
  · have hhigh : a.block.height ≤ high := by omega
    simp [hlow, hhigh]
  · simp [hlow]

/-- How the entry under each key came about last on a chain. -/
def originsOn (chain : List Applied) : Origins :=
  chain.foldl (fun origins a => a.before.originsAfter a.ctx a.block a.txs origins)
    fun _ => .ordinary

namespace Registry

/-- The blocks of a chain, applied one after the other to an empty registry, lead to a registry. -/
inductive Built : List Applied → Registry → Prop where
  | new (height : Nat) : Built [] (Registry.new height)
  | snoc {chain : List Applied} {a : Applied} {outcome : Outcome} (built : Built chain a.before)
      (applied : a.before.apply a.ctx a.block a.txs = .ok (a.after, outcome)) :
      Built (chain ++ [a]) a.after

namespace Built

variable {chain : List Applied} {r : Registry}

theorem traced (h : Built chain r) : Traced Anything r (originsOn chain) := by
  induction h with
  | new height => exact .new height _
  | @snoc chain a outcome built applied ih =>
      unfold originsOn
      rw [List.foldl_append]
      exact .apply ih trivial applied

theorem height_before (h : Built chain r) : ∀ a ∈ chain, a.before.height + 1 = a.block.height := by
  induction h with
  | new => simp
  | snoc built applied ih =>
      intro b hb
      rcases List.mem_append.1 hb with hb | hb
      · exact ih b hb
      · rw [List.mem_singleton.1 hb]
        exact height_before_apply applied

theorem height_le (h : Built chain r) : ∀ a ∈ chain, a.block.height ≤ r.height := by
  induction h with
  | new => simp
  | @snoc chain a outcome built applied ih =>
      have hafter := height_of_apply applied
      have hbefore := height_before_apply applied
      intro b hb
      rcases List.mem_append.1 hb with hb | hb
      · have hearlier := ih b hb
        omega
      · rw [List.mem_singleton.1 hb]
        omega

/-- All blocks of a registry lie up to its height. -/
theorem upTo_eq (h : Built chain r) {height : Nat} (hle : r.height ≤ height) :
    upTo chain height = chain :=
  List.filter_eq_self.2 fun a ha => decide_eq_true (Nat.le_trans (h.height_le a ha) hle)

/-- The blocks below one of the chain lead to the registry that it was applied to. -/
theorem split (h : Built chain r) {a : Applied} (ha : a ∈ chain) :
    ∃ front back, chain = front ++ a :: back ∧ Built front a.before := by
  induction h with
  | new => cases ha
  | @snoc chain b outcome built applied ih =>
      rcases List.mem_append.1 ha with ha | ha
      · obtain ⟨front, back, rfl, hfront⟩ := ih ha
        exact ⟨front, back ++ [b], by simp, hfront⟩
      · cases List.mem_singleton.1 ha
        exact ⟨chain, [], rfl, built⟩

end Built

end Registry

/-! ## Nodes that expire -/

namespace Draft

/-- A node is listed as expired with the BLS key of the entry that was taken away. -/
theorem mem_expired_expire (keys : List PublicKey) (d : Draft) (key : PublicKey)
    (blsKey : BlsKey) : (key, blsKey) ∈ (keys.foldl expire d).outcome.expired ↔
      (key, blsKey) ∈ d.outcome.expired ∨
        key ∈ keys ∧ ∃ info, d.registry.info? key = some info ∧ info.blsKey = blsKey := by
  induction keys generalizing d with
  | nil => simp
  | cons first keys ih =>
      rw [List.foldl_cons, ih]
      unfold expire
      split
      · rename_i hnone
        by_cases hkey : key = first
        · simp [hkey, hnone]
        · simp [hkey]
      · rename_i info hsome
        rw [Registry.info?_remove]
        by_cases hkey : key = first
        · simp [hkey, hsome, eq_comm]
        · simp [hkey]

/-- No transaction lists nodes as expired. -/
theorem expired_of_move {ctx : Context} {block : Block} {index : Nat} {tx : Transaction}
    {d d' : Draft} (h : Move ctx block index tx d d') :
    d'.outcome.expired = d.outcome.expired := by
  cases h with
  | @staked entered funded kind enters credits =>
      have hentered : ∀ key info, (d.enter block.fork key info).outcome.expired =
          d.outcome.expired := by
        intro key info
        unfold enter
        dsimp only
        split <;> rfl
      have hfirst : entered.outcome.expired = d.outcome.expired := by
        cases enters with
        | nobody => rfl
        | @newcomer key info => exact hentered key info
        | @again key info old entry => exact hentered key entry
      cases credits <;> exact hfirst
  | _ => rfl

theorem expired_applyTransactions (ctx : Context) (block : Block) (txs : List Transaction)
    (d : Draft) : (d.applyTransactions ctx block txs).outcome.expired = d.outcome.expired :=
  applyTransactions_induction (P := fun d' => d'.outcome.expired = d.outcome.expired) rfl
    fun d' tx index _ h => (expired_of_move (move_applyTransaction d' tx index)).trans h

end Draft

namespace Applied

/-- Whether a block lists a BLS key as that of a node that has expired. -/
def expires (a : Applied) (blsKey : BlsKey) : Bool :=
  (a.draftAt 0).outcome.expired.any fun p => p.2 == blsKey

/-- A block takes a node away because its stake has run out: the entry is gone when the block begins
with its transactions. -/
structure TakesAway (a : Applied) (key : PublicKey) (info : NodeInfo) : Prop where
  before : a.before.info? key = some info
  gone : (a.draftAt 0).registry.info? key = none

/-- What a block does elsewhere tells who has expired. -/
theorem expired_of_apply {a : Applied} {outcome : Outcome}
    (h : a.before.apply a.ctx a.block a.txs = .ok (a.after, outcome)) :
    outcome.expired = (a.draftAt 0).outcome.expired := by
  obtain ⟨-, rfl, -⟩ := Registry.apply_eq_ok_iff.1 h
  exact Draft.expired_applyTransactions a.ctx a.block a.txs _

/-- A BLS key is listed exactly if a node with that key is taken away. -/
theorem expires_iff {a : Applied} {blsKey : BlsKey} :
    a.expires blsKey = true ↔ ∃ key info, a.TakesAway key info ∧ info.blsKey = blsKey := by
  let formed := a.before.formed a.ctx a.block
  let keys := formed.expiring a.ctx a.block.fork a.block.height
  have hpairs : a.before.PairsEntries NodeInfo.SameTerms formed :=
    Registry.pairsTerms_formed a.before a.ctx a.block
  have hlisted : ∀ key, (key, blsKey) ∈ (a.draftAt 0).outcome.expired ↔
      key ∈ keys ∧ ∃ info, formed.info? key = some info ∧ info.blsKey = blsKey := fun key =>
    (Draft.mem_expired_expire keys { registry := formed } key blsKey).trans (by simp)
  have hgone : ∀ key, (a.draftAt 0).registry.info? key = none ↔
      key ∈ keys ∨ a.before.info? key = none :=
    a.before.info?_opened_eq_none_iff a.ctx a.block
  unfold expires
  rw [List.any_eq_true]
  constructor
  · rintro ⟨⟨key, listed⟩, hmem, heq⟩
    cases beq_iff_eq.1 heq
    obtain ⟨hkey, noted, hnoted, hblsKey⟩ := (hlisted key).1 hmem
    obtain ⟨info, hinfo, hsame⟩ := hpairs.exists_before hnoted
    exact ⟨key, info, ⟨hinfo, (hgone key).2 (.inl hkey)⟩, hsame.blsKey.symm.trans hblsKey⟩
  · rintro ⟨key, info, ⟨hinfo, hkey⟩, rfl⟩
    obtain ⟨noted, hnoted, hsame⟩ := hpairs.exists_after hinfo
    have hmem : key ∈ keys := by
      rcases (hgone key).1 hkey with hmem | hnone
      · exact hmem
      · cases hinfo.symm.trans hnone
    exact ⟨(key, info.blsKey), (hlisted key).2 ⟨hmem, noted, hnoted, hsame.blsKey⟩, by simp⟩

end Applied

/-! ## Windows -/

/-- In the block of a height a node with a BLS key, whose entry came about as `origin` says, was taken
away because its stake had run out. -/
def ExpiredAt (chain : List Applied) (origin : Origin) (blsKey : BlsKey) (height : Nat) : Prop :=
  ∃ front a back key info, chain = front ++ a :: back ∧ a.block.height = height ∧
    a.TakesAway key info ∧ info.blsKey = blsKey ∧ originsOn front key = origin

/-- The last height of the window that is open for a BLS key after a block, by that of the one which
was open before it. An expiry opens a window if none is open, and does not lengthen one that is. -/
def windowAfter (rules : NetworkRules) (blsKey : BlsKey) (last : Option Nat) (a : Applied) :
    Option Nat :=
  (last.or
      (if a.expires blsKey then some (wrapAdd a.block.height rules.exitBuffer) else none)).filter
    fun last => decide (a.block.height ≤ last)

/-- The last height of the window that is open for a BLS key at the end of a chain. -/
def windowEnd (rules : NetworkRules) (blsKey : BlsKey) (chain : List Applied) : Option Nat :=
  chain.foldl (windowAfter rules blsKey) none

theorem windowEnd_append (rules : NetworkRules) (blsKey : BlsKey) (chain : List Applied)
    (a : Applied) : windowEnd rules blsKey (chain ++ [a]) =
      windowAfter rules blsKey (windowEnd rules blsKey chain) a := by
  unfold windowEnd
  rw [List.foldl_append, List.foldl_cons, List.foldl_nil]

namespace Registry.Built

variable {chain : List Applied} {r : Registry} {blsKey : BlsKey} {rules : NetworkRules}

/-- The heights at which a BLS key expires on a chain. Unless the key is zero, it is that of a node
which came through the bridge. -/
theorem expiredAt_bridge_iff (h : Built chain r) (hkey : blsKey ≠ 0) {height : Nat} :
    ExpiredAt chain .bridge blsKey height ↔
      ∃ a ∈ chain, a.block.height = height ∧ a.expires blsKey = true := by
  constructor
  · rintro ⟨front, a, back, key, info, rfl, hheight, htakes, hblsKey, -⟩
    exact ⟨a, List.mem_append_right _ List.mem_cons_self, hheight,
      Applied.expires_iff.2 ⟨key, info, htakes, hblsKey⟩⟩
  · rintro ⟨a, ha, hheight, hexpires⟩
    obtain ⟨key, info, htakes, hblsKey⟩ := Applied.expires_iff.1 hexpires
    obtain ⟨front, back, hchain, hbuilt⟩ := h.split ha
    refine ⟨front, a, back, key, info, hchain, hheight, htakes, hblsKey, ?_⟩
    have hkeyed := hbuilt.traced.keyed fun _ => blsKeyLaw_ordinary _ _
    cases horigin : originsOn front key with
    | ordinary => exact absurd (hblsKey.symm.trans (hkeyed key info htakes.before horigin)) hkey
    | bridge => rfl

/-- A window that is open has been opened by an expiry, and has not ended. -/
theorem windowEnd_sound (h : Built chain r) {last : Nat}
    (hopen : windowEnd rules blsKey chain = some last) :
    r.height ≤ last ∧ ∃ a ∈ chain, a.expires blsKey = true ∧
      last = wrapAdd a.block.height rules.exitBuffer := by
  induction h with
  | new => cases hopen
  | @snoc chain a outcome built applied ih =>
      rw [windowEnd_append] at hopen
      obtain ⟨hopen, hlast⟩ := Option.filter_eq_some_iff.1 hopen
      have hafter : a.after.height = a.block.height := height_of_apply applied
      rw [hafter]
      refine ⟨by simpa using hlast, ?_⟩
      rcases Option.or_eq_some_iff.1 hopen with hopen | ⟨-, hopen⟩
      · obtain ⟨-, b, hb, hexpires, heq⟩ := ih hopen
        exact ⟨b, List.mem_append_left _ hb, hexpires, heq⟩
      · split at hopen
        · exact ⟨a, List.mem_append_right _ (List.mem_singleton.2 rfl), ‹_›,
            (Option.some.inj hopen).symm⟩
        · cases hopen

/-- An expiry that comes more than one window behind all earlier ones opens a window of its own. -/
theorem windowEnd_eq (h : Built chain r) {a : Applied} (ha : a ∈ chain)
    (hexpires : a.expires blsKey = true)
    (hlast : r.height ≤ wrapAdd a.block.height rules.exitBuffer)
    (hspaced : ∀ b ∈ chain, b.expires blsKey = true → b.block.height < a.block.height →
      wrapAdd b.block.height rules.exitBuffer + 1 < a.block.height) :
    windowEnd rules blsKey chain = some (wrapAdd a.block.height rules.exitBuffer) := by
  induction h with
  | new => cases ha
  | @snoc chain b outcome built applied ih =>
      have hafter : b.after.height = b.block.height := height_of_apply applied
      have hbefore : b.before.height + 1 = b.block.height := height_before_apply applied
      rw [hafter] at hlast
      rw [windowEnd_append]
      unfold windowAfter
      have hnow : ∀ {x : Option Nat}, x = some (wrapAdd a.block.height rules.exitBuffer) →
          x.filter (fun last => decide (b.block.height ≤ last)) =
            some (wrapAdd a.block.height rules.exitBuffer) := by
        rintro _ rfl
        rw [Option.filter_some, if_pos (decide_eq_true hlast)]
      refine hnow ?_
      rcases List.mem_append.1 ha with ha | ha
      · rw [ih ha (by omega) fun c hc => hspaced c (List.mem_append_left _ hc)]
        rfl
      · cases List.mem_singleton.1 ha
        -- A window open until here would belong to an expiry that is too close.
        have hnone : windowEnd rules blsKey chain = none := by
          refine Option.eq_none_iff_forall_ne_some.2 fun last hopen => ?_
          obtain ⟨hlow, c, hc, hearlier, rfl⟩ := built.windowEnd_sound hopen
          have hheight := built.height_le c hc
          have hfar := hspaced c (List.mem_append_left _ hc) hearlier (by omega)
          omega
        rw [hnone, if_pos hexpires]
        rfl

end Registry.Built

end StakeRegistry
