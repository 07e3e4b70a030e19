import StakeRegistry.Proofs.Live.Beside
import StakeRegistry.Proofs.Live.Voting

/-!
# Other branches

A branch is evaluated beside the canonical chain, block by block (`LiveRegistry.Branched`). A
registry that has processed the canonical chain up to the fork only, and then the branch, looks
at its own past alone (`LiveRegistry.led`). Main statements:

* `Extends.sharesPast`: what is on record of the past below a fork stays so while the canonical
  chain grows and other branches come up;
* `Branched.head_eq_tip`: both evaluations lead to the same registry, if the votes on the state
  changes of the branch are those of its own quorums;
* `Branched.head_ne_tip_of_canonical_votes`: a canonical quorum carries votes on a branch, too.
-/

set_option autoImplicit false

namespace StakeRegistry

namespace LiveRegistry

/-! ## Whole branches -/

/-- The registry after blocks were offered to it as those of another branch. -/
def afterOffers (l : LiveRegistry) (offers : List Offer) : LiveRegistry :=
  offers.foldl (fun l o => (l.addAltBlock o.beside o.block o.txs none).2) l

/-- The registry after blocks were added to it that are those of its chain, not verified again. -/
def led (m : LiveRegistry) (offers : List Offer) : Except RegistryError LiveRegistry :=
  offers.foldlM (fun m o => (·.2) <$> m.advance o.within o.block o.txs none false) m

/-- A branch of new blocks, one on top of the other, that were all taken; and the registry that
is kept for the last one. -/
inductive Branched (l : LiveRegistry) (base : Registry) : List Offer → Registry → Prop where
  | root : Branched l base [] base
  | block {offers : List Offer} {o : Offer} {tip next : Registry}
      (branched : Branched l base offers tip)
      (above : o.block.height = tip.height + 1) (onto : o.block.prevHash = tip.blockHash)
      (fork : HardFork.serviceNodes ≤ o.block.fork)
      (unknown : (l.afterOffers offers).history.alternatives.get? o.block.hash = none)
      (notCanonical : ∀ r, l.history.recent.get? o.block.height = some r →
        r.blockHash ≠ o.block.hash)
      (accepted : ((l.afterOffers offers).addAltBlock o.beside o.block o.txs none).1 = .ok ())
      (kept : (l.afterOffers (offers ++ [o])).history.alternatives.get? o.block.hash = some next) :
      Branched l base (offers ++ [o]) next

/-- The votes on each block of a branch are those of its own quorums. -/
def UndisputedAlong (l m : LiveRegistry) (offers : List Offer) : Prop :=
  ∀ earlier o later m', offers = earlier ++ o :: later → m.led earlier = .ok m' →
    Undisputed (l.afterOffers earlier) m' o

/-- The second registry has processed the chain of the first up to a registry that is a recent
one of the first: this is its head, and what the first still has on record below it has the
quorums that the second recalls. -/
structure SharesPast (l m : LiveRegistry) (base : Registry) : Prop where
  rules : m.rules = l.rules
  recent : l.history.recent.get? base.height = some base
  head : m.head = base
  past : ∀ height r, height < base.height → l.history.at? height = some r →
    m.view.obligations? height = r.quorums.obligations

/-- A registry that was offered canonical blocks and blocks of other branches, whatever became
of them. -/
inductive Extends (m : LiveRegistry) : LiveRegistry → Prop where
  | refl : Extends m m
  | add {l : LiveRegistry} (s : Surroundings) (block : Block) (txs : List Transaction)
      (checkpoint : Option Checkpoint) (earlier : Extends m l) :
      Extends m (l.addBlock s block txs checkpoint).2
  | addAlt {l : LiveRegistry} (s : Surroundings) (block : Block) (txs : List Transaction)
      (checkpoint : Option Checkpoint) (earlier : Extends m l) :
      Extends m (l.addAltBlock s block txs checkpoint).2

/-- What a registry that was extended still has on record of the past of another one. -/
structure KeepsPast (m l : LiveRegistry) : Prop where
  rules : m.rules = l.rules
  apart : l.history.Apart l.head.height
  higher : m.head.height ≤ l.head.height
  past : ∀ height r, height < m.head.height → l.history.at? height = some r →
    ∃ r', m.history.at? height = some r' ∧ r.quorums = r'.quorums

section Past

variable {l l' m : LiveRegistry} {s : Surroundings} {block : Block} {txs : List Transaction}
  {checkpoint : Option Checkpoint}

theorem KeepsPast.of_samePast (h : KeepsPast m l) (hpast : l.SamePast l') : KeepsPast m l' := by
  refine ⟨h.rules.trans (congrArg Settings.rules hpast.settings).symm, ?_, ?_, ?_⟩
  · rw [hpast.history, hpast.head]
    exact h.apart
  · rw [hpast.head]
    exact h.higher
  · rw [hpast.history]
    exact h.past

theorem KeepsPast.advance (h : KeepsPast m l) {verify : Bool} {outcome : Outcome}
    (hadvance : l.advance s block txs checkpoint verify = .ok (outcome, l')) :
    KeepsPast m l' := by
  obtain ⟨head, happly, -, rfl⟩ := advance_eq_ok_iff.1 hadvance
  have hafter : head.height = block.height := Registry.height_of_apply happly
  have hbefore : l.head.height + 1 = block.height := Registry.height_before_apply happly
  have hhigher := h.higher
  rw [← hbefore]
  refine ⟨h.rules, ?_, ?_, fun height r hlow hr => ?_⟩
  · show (l.history.push (l.head.height + 1) l.head).Apart head.height
    rw [hafter, ← hbefore]
    exact h.apart.push rfl
  · show m.head.height ≤ head.height
    omega
  · obtain ⟨r₁, hr₁, hquorums₁⟩ := h.apart.quorums_at?_push rfl (by omega) hr
    obtain ⟨r₂, hr₂, hquorums₂⟩ := h.past height r₁ hlow hr₁
    exact ⟨r₂, hr₂, hquorums₁.trans hquorums₂⟩

/-- A block of another branch leaves the canonical past alone. -/
theorem addAltBlock_cases (l : LiveRegistry) (s : Surroundings) (block : Block)
    (txs : List Transaction) (checkpoint : Option Checkpoint) :
    (l.addAltBlock s block txs checkpoint).2 = l ∨
      ∃ next, (l.addAltBlock s block txs checkpoint).2 = l.withAlternative block.hash next := by
  unfold addAltBlock
  split
  · exact Or.inl rfl
  · cases l.branch s block txs checkpoint with
    | error e => exact Or.inl rfl
    | ok next => exact Or.inr ⟨next, rfl⟩

/-- Extending a registry keeps what is on record of its past. -/
theorem Extends.keepsPast (h : Extends m l) (hapart : m.history.Apart m.head.height) :
    KeepsPast m l := by
  induction h with
  | refl => exact ⟨rfl, hapart, Nat.le_refl _, fun _ r _ hr => ⟨r, hr, rfl⟩⟩
  | @add l s block txs checkpoint earlier ih =>
      rcases addBlock_cases l s block txs checkpoint with heq | ⟨outcome, next, hadvance, hpast⟩
      · rw [heq]
        exact ih
      · exact (ih.advance hadvance).of_samePast hpast
  | @addAlt l s block txs checkpoint earlier ih =>
      rcases addAltBlock_cases l s block txs checkpoint with heq | ⟨next, heq⟩
      · rw [heq]
        exact ih
      · rw [heq]
        exact ⟨ih.rules, ⟨ih.apart.recent, ih.apart.archive⟩, ih.higher, ih.past⟩

/-- A registry shares the past of the one that it extends, as long as it keeps its head. -/
theorem Extends.sharesPast (h : Extends m l) (hapart : m.history.Apart m.head.height)
    (hkept : l.history.recent.get? m.head.height = some m.head) : SharesPast l m m.head := by
  have hkeeps := h.keepsPast hapart
  refine ⟨hkeeps.rules, hkept, rfl, fun height r hlow hr => ?_⟩
  obtain ⟨r', hr', hquorums⟩ := hkeeps.past height r hlow hr
  unfold view
  rw [HistoryView.obligations?_of, if_neg (by omega), hr', hquorums]
  rfl

end Past

section Run

variable {l m : LiveRegistry} {base tip : Registry} {offers : List Offer}

theorem afterOffers_append (l : LiveRegistry) (offers : List Offer) (o : Offer) :
    l.afterOffers (offers ++ [o]) =
      ((l.afterOffers offers).addAltBlock o.beside o.block o.txs none).2 := by
  unfold afterOffers
  rw [List.foldl_append]
  rfl

/-- What following one more block means. -/
theorem led_append_eq_ok_iff {o : Offer} {m' : LiveRegistry} :
    m.led (offers ++ [o]) = .ok m' ↔
      ∃ m₁ outcome, m.led offers = .ok m₁ ∧
        m₁.advance o.within o.block o.txs none false = .ok (outcome, m') := by
  have happend : m.led (offers ++ [o]) =
      (m.led offers >>= fun m => (·.2) <$> m.advance o.within o.block o.txs none false) := by
    unfold led
    rw [List.foldlM_append]
    simp
  rw [happend, bind_eq_ok_iff]
  refine exists_congr fun m₁ => ⟨fun ⟨hled, h⟩ => ?_, fun ⟨outcome, hled, h⟩ => ⟨hled, ?_⟩⟩
  · cases hadvance : m₁.advance o.within o.block o.txs none false with
    | error e =>
        rw [hadvance] at h
        cases h
    | ok p =>
        rw [hadvance] at h
        cases h
        exact ⟨p.1, hled, rfl⟩
  · rw [h]
    rfl

/-- Where a branch begins, both evaluations are abreast. -/
theorem SharesPast.abreast (h : SharesPast l m base) : Abreast l m base := by
  have hbase : l.history.at? base.height = some base := by
    unfold History.at?
    rw [h.recent]
    rfl
  refine ⟨h.rules, h.head, fun block habove honto => ?_, Or.inl hbase,
    fun height q hlow _ hreached hq => ?_⟩
  · unfold parentOf?
    rw [habove, Nat.add_sub_cancel, h.recent, Option.filter_some, if_pos (by simp [honto])]
    rfl
  · obtain ⟨r, hr⟩ := Option.isSome_iff_exists.1 hreached
    exact ⟨r, Or.inl hr, (h.past height r hlow hr).symm.trans hq⟩

/-- A block leaves the quorums that votes may still name where they are found. -/
theorem obligations?_of_advance {l next : LiveRegistry} {s : Surroundings} {block : Block}
    {txs : List Transaction} {checkpoint : Option Checkpoint} {verify : Bool} {outcome : Outcome}
    (h : l.advance s block txs checkpoint verify = .ok (outcome, next)) {height : Nat}
    (hlow : height ≤ l.head.height) (hlive : block.height ≤ height + voteLifetime) :
    next.view.obligations? height = l.view.obligations? height := by
  obtain ⟨head, happly, -, rfl⟩ := advance_eq_ok_iff.1 h
  have hafter : head.height = block.height := Registry.height_of_apply happly
  have hbefore : l.head.height + 1 = block.height := Registry.height_before_apply happly
  rw [← hafter]
  exact HistoryView.obligations?_push (show head.height = l.head.height + 1 by omega) hlow
    (show head.height ≤ height + voteLifetime by omega)

/-- Other branches leave the canonical past alone. -/
theorem past_afterOffers (h : Branched l base offers tip) :
    (l.afterOffers offers).settings = l.settings ∧
      (l.afterOffers offers).history.recent = l.history.recent ∧
      (l.afterOffers offers).history.archive = l.history.archive := by
  induction h with
  | root => exact ⟨rfl, rfl, rfl⟩
  | block branched above onto fork unknown notCanonical accepted kept ih =>
      obtain ⟨next, -, hafter⟩ := addAltBlock_eq_ok fork unknown accepted
      rw [afterOffers_append, hafter]
      exact ih

/-- A branch whose state changes are voted on by its own quorums is evaluated beside the canonical
chain as a registry that follows it evaluates it. -/
theorem Branched.abreast (h : Branched l base offers tip) (hshares : SharesPast l m base)
    (hreads : ∀ o ∈ offers, o.ReadsAlike l.rules) (hvotes : UndisputedAlong l m offers) :
    ∃ m', m.led offers = .ok m' ∧ Abreast (l.afterOffers offers) m' tip := by
  induction h with
  | root => exact ⟨m, rfl, hshares.abreast⟩
  | @block offers o tip next branched above onto fork unknown notCanonical accepted kept ih =>
      obtain ⟨m', hled, habreast⟩ := ih (fun o ho => hreads o (by simp [ho]))
        fun earlier o' later m' hsplit => hvotes earlier o' (later ++ [o]) m' (by simp [hsplit])
      obtain ⟨hsettings, hrecent, -⟩ := past_afterOffers branched
      have hrules : (l.afterOffers offers).rules = l.rules := congrArg Settings.rules hsettings
      obtain ⟨next', hbranch, hafter⟩ := addAltBlock_eq_ok fork unknown accepted
      have hnext : next' = next := by
        rw [afterOffers_append, hafter, get?_withAlternative_self] at kept
        exact Option.some.inj kept
      subst hnext
      obtain ⟨outcome, m'', hadvance, habreast'⟩ := habreast.advance above onto
        (by rw [hrules]; exact hreads o (by simp)) (hvotes offers o [] m' rfl hled) unknown
        (by rw [hrecent]; exact notCanonical) hbranch
      refine ⟨m'', led_append_eq_ok_iff.2 ⟨m', outcome, hled, hadvance⟩, ?_⟩
      rw [afterOffers_append, hafter]
      exact habreast'

end Run

/-! ## Branches of mined blocks -/

section Mined

variable {l m : LiveRegistry} {base tip : Registry} {offers : List Offer} {o : Offer}

theorem undisputed_of_quiet (l m : LiveRegistry) (hquiet : ∀ tx ∈ o.txs, tx.kind ≠ .stateChange) :
    Undisputed l m o := fun tx htx hkind => absurd hkind (hquiet tx htx)

/-- Where a branch is the only one, votes on the quorum of its fork are its own. -/
theorem undisputed_of_fork (halone : ∀ hash, l.history.alternatives.get? hash = none)
    (hfork : ∀ tx ∈ o.txs, ∀ change, tx.stateChange? = some change →
      m.head.height = change.height) : Undisputed l m o := by
  intro tx htx _ change hchange
  have hheight := hfork tx htx change hchange
  have hstate : (l.besideView m.head).state? change.height = some m.head := by
    rw [state?_besideView, if_pos hheight]
  refine ⟨fun r q hr hq _ => ?_, fun _ _ _ => Option.isSome_iff_exists.2 ⟨_, hstate⟩⟩
  obtain hr | ⟨hash, hr⟩ := eq_of_counts hr
  · cases hstate.symm.trans hr
    unfold view
    rw [HistoryView.obligations?_of, if_pos hheight, hq]
  · cases (halone hash).symm.trans hr

theorem undisputedAlong_nil (l m : LiveRegistry) : UndisputedAlong l m [] := by
  intro earlier o later m' hsplit
  simp at hsplit

theorem UndisputedAlong.snoc (h : UndisputedAlong l m offers)
    (hlast : ∀ m', m.led offers = .ok m' → Undisputed (l.afterOffers offers) m' o) :
    UndisputedAlong l m (offers ++ [o]) := by
  intro earlier o' later m' hsplit hled
  rcases List.eq_nil_or_concat later with rfl | ⟨later, o'', rfl⟩
  · obtain ⟨rfl, heq⟩ := List.append_inj' hsplit rfl
    cases heq
    exact hlast m' hled
  · rw [List.concat_eq_append, ← List.cons_append, ← List.append_assoc] at hsplit
    exact h earlier o' later m' (List.append_inj' hsplit rfl).1 hled

/-- A block whose hash is new is not among those of the branch. -/
theorem Branched.unknown (h : Branched l base offers tip) {hash : Hash}
    (hnone : l.history.alternatives.get? hash = none) (hnew : ∀ o ∈ offers, o.block.hash ≠ hash) :
    (l.afterOffers offers).history.alternatives.get? hash = none := by
  induction h with
  | root => exact hnone
  | @block offers o tip next branched above onto fork unknown notCanonical accepted kept ih =>
      obtain ⟨next', -, hafter⟩ := addAltBlock_eq_ok fork unknown accepted
      rw [afterOffers_append, hafter]
      exact ((l.afterOffers offers).get?_withAlternative_of_ne next' (hnew o (by simp)).symm).trans
        (ih fun o ho => hnew o (by simp [ho]))

/-- A mined block on top of a branch is always taken. -/
theorem Branched.exists_of_mined (h : Branched l base offers tip)
    (habreast : Abreast (l.afterOffers offers) m tip) (hmined : o.block.IsMined)
    (hfork : HardFork.serviceNodes ≤ o.block.fork)
    (hknown : (o.beside.chain.blockByHash? o.block.prevHash).isSome = true)
    (habove : o.block.height = tip.height + 1) (honto : o.block.prevHash = tip.blockHash)
    (hnone : l.history.alternatives.get? o.block.hash = none)
    (hnew : ∀ o' ∈ offers, o'.block.hash ≠ o.block.hash)
    (hcanonical : ∀ r, l.history.recent.get? o.block.height = some r →
      r.blockHash ≠ o.block.hash) :
    ∃ next outcome,
      tip.apply ((l.afterOffers offers).context o.beside ((l.afterOffers offers).besideView tip))
        o.block o.txs = .ok (next, outcome) ∧
      Branched l base (offers ++ [o]) next := by
  have hunknown := h.unknown hnone hnew
  obtain ⟨next, outcome, happly, -⟩ := Registry.exists_apply_eq_ok
    ((l.afterOffers offers).context o.beside ((l.afterOffers offers).besideView tip)) o.txs
    habove.symm
  have hbranch : (l.afterOffers offers).branch o.beside o.block o.txs none = .ok next :=
    (branch_eq_ok_iff (habreast.parent o.block habove honto) honto.symm).2
      ⟨outcome, happly, verifyBlock_of_mined hmined true hknown (by simp)⟩
  have htaken : (l.afterOffers offers).addAltBlock o.beside o.block o.txs none = _ :=
    addAltBlock_eq hfork hunknown
  rw [hbranch] at htaken
  refine ⟨next, outcome, happly, .block h habove honto hfork hunknown hcanonical ?_ ?_⟩
  · rw [htaken]
  · rw [afterOffers_append, htaken]
    exact get?_withAlternative_self _ _ _

end Mined

end LiveRegistry

/-! ## Branches off the fake chain -/

/-- A mined block of another branch, on top of the block with a hash. Its own hash writes its
height and a hundred. -/
def Block.forked (height parent : Nat) : Block :=
  { Block.plain height .v21 with hash := .writing (100 + height), prevHash := .writing parent }

theorem Block.isMined_forked (height parent : Nat) : (Block.forked height parent).IsMined :=
  ⟨rfl, rfl⟩

/-- A block that is offered where signatures are trusted. -/
def Offer.trusting (block : Block) (txs : List Transaction) : Offer :=
  ⟨block, txs, .trusting, .trusting⟩

theorem Offer.readsAlike_trusting (block : Block) (txs : List Transaction) (rules : NetworkRules) :
    (Offer.trusting block txs).ReadsAlike rules :=
  ⟨rfl, ⟨fun _ => True, ⟨fun _ _ => rfl, fun _ _ _ _ => trivial⟩, trivial⟩, fun _ => rfl,
    fun _ _ _ => rfl⟩

/-- No nodes, after the first block. -/
def Registry.idle : Registry := (Registry.new 0).settled .trusting (.plain 1 .v21) []

/-- Eleven nodes, after the second block. -/
def Registry.early : Registry := Registry.idle.settled .trusting (.plain 2 .v21) elevenNodes

/-- No nodes, after the second block of another branch. -/
def Registry.idleBeside : Registry := Registry.idle.settled .trusting (.forked 2 1) []

/-- Eleven nodes, after the third block of another branch. -/
def Registry.late : Registry :=
  Registry.idleBeside.settled .trusting (.forked 3 102) elevenNodes

theorem active_idle : Registry.idle.active = [] := by decide +kernel

theorem length_active_early : Registry.early.active.length = 11 := by decide +kernel

theorem decommissioned_early : Registry.early.decommissioned = [] := by decide +kernel

theorem active_idleBeside : Registry.idleBeside.active = [] := by decide +kernel

theorem decommissioned_idleBeside : Registry.idleBeside.decommissioned = [] := by decide +kernel

theorem keys_draft_late :
    (Registry.late.draft .trusting (.forked 4 103) []).registry.active.keys =
      Registry.early.active.keys := by decide +kernel

namespace LiveRegistry

/-- A registry of the fake chain at the end of mined blocks, before any block of another branch. -/
structure Mined (l : LiveRegistry) (r : Registry) : Prop where
  settings : l.settings = .bridged
  head : l.head = r
  apart : l.history.Apart r.height
  alone : ∀ hash, l.history.alternatives.get? hash = none

theorem mined_init : Mined ((start .bridged ∅ []).init .trusting).2 (.new 0) :=
  ⟨rfl, rfl, History.apart_of_empty rfl rfl 0, fun _ => rfl⟩

/-- The next mined block, after a registry with few nodes. -/
theorem Mined.add {l : LiveRegistry} {r before : Registry} (h : Mined l r)
    (hsame : before.SameButQuorums r) (height : Nat) (hheight : r.height + 1 = height)
    (txs : List Transaction) (hquiet : ∀ tx ∈ txs, tx.kind ≠ .stateChange)
    (hfew : before.active.length < 12) :
    ∃ next, Mined (l.addBlock .trusting (.plain height .v21) txs none).2 next ∧
      (before.settled .trusting (.plain height .v21) txs).SameButQuorums next ∧
      r.QuorumsFormed (.plain height .v21) next ∧
      next.height = height ∧ next.blockHash = .writing height ∧
      (l.addBlock .trusting (.plain height .v21) txs none).2.history =
        l.history.push height r := by
  have hrules := rules_of_bridged h.settings
  have hfew' : l.head.active.length < l.rules.pulseMinNodes := by
    rw [h.head, hsame.active, hrules]
    exact hfew
  obtain ⟨next, outcome, happly, -, hpast⟩ := addBlock_of_mined l .trusting txs
    (Block.isMined_plain height .v21) (show HardFork.serviceNodes ≤ HardFork.v21 by decide) rfl
    (by rw [h.head]; exact hheight) hfew'
  rw [h.head] at happly hpast
  have hnext : next.height = height := Registry.height_of_apply happly
  have hhistory : (l.addBlock .trusting (.plain height .v21) txs none).2.history =
      l.history.push height r := hpast.history
  refine ⟨next, ⟨hpast.settings.trans h.settings, hpast.head, ?_, fun hash => ?_⟩,
    sameButQuorums_of_apply hrules hquiet hsame happly, Registry.quorumsFormed_of_apply happly,
    hnext, Registry.blockHash_of_apply happly, hhistory⟩
  · rw [hhistory, hnext, ← hheight]
    exact h.apart.push rfl
  · rw [hhistory]
    exact History.alternatives_push_eq_none _ _ _ (h.alone hash)

theorem Mined.sharesPast {l m : LiveRegistry} {r : Registry} (hm : Mined m r)
    (hextends : Extends m l) (hkept : l.history.recent.get? r.height = some r) :
    SharesPast l m m.head := by
  refine hextends.sharesPast ?_ ?_
  · rw [hm.head]
    exact hm.apart
  · rw [hm.head]
    exact hkept

/-- Such a block on top of a branch is always taken. -/
theorem Branched.exists_forked {l m : LiveRegistry} {base tip : Registry} {offers : List Offer}
    (h : Branched l base offers tip) (habreast : Abreast (l.afterOffers offers) m tip)
    (height parent : Nat) (txs : List Transaction) (habove : tip.height + 1 = height)
    (honto : tip.blockHash = .writing parent)
    (hnone : l.history.alternatives.get? (.writing (100 + height)) = none)
    (hnew : ∀ o ∈ offers, o.block.hash ≠ .writing (100 + height))
    (hcanonical : ∀ r, l.history.recent.get? height = some r →
      r.blockHash ≠ .writing (100 + height)) :
    ∃ next outcome,
      tip.apply ((l.afterOffers offers).context .trusting ((l.afterOffers offers).besideView tip))
        (.forked height parent) txs = .ok (next, outcome) ∧
      Branched l base (offers ++ [.trusting (.forked height parent) txs]) next ∧
      next.height = height ∧ next.blockHash = .writing (100 + height) := by
  obtain ⟨next, outcome, happly, hbranch⟩ :=
    h.exists_of_mined (o := .trusting (.forked height parent) txs) habreast
      (Block.isMined_forked height parent)
      (show HardFork.serviceNodes ≤ HardFork.v21 by decide) rfl habove.symm honto.symm hnone hnew
      hcanonical
  exact ⟨next, outcome, happly, hbranch, Registry.height_of_apply happly,
    Registry.blockHash_of_apply happly⟩

/-- No canonical block is taken for one above the head. -/
theorem Mined.recent_ne {l : LiveRegistry} {r : Registry} (h : Mined l r) {height : Nat}
    (hhigh : r.height ≤ height) (hash : Hash) :
    ∀ r', l.history.recent.get? height = some r' → r'.blockHash ≠ hash := by
  intro r' hr'
  have hlow := h.apart.recent height r' hr'
  omega

/-- The removal of the node that the fork tests, and one more block. -/
def removingOffers : List Offer :=
  [.trusting (.forked 2 1) [.removing 1], .trusting (.forked 3 102) []]

/-- On top of a first block, the removal of a node that it tests is a branch of its own. -/
theorem Mined.exists_removing {l m : LiveRegistry} {r₁ r₂ : Registry} (hm : Mined m r₁)
    (hl : Mined l r₂) (hheight₁ : r₁.height = 1) (hhash₁ : r₁.blockHash = .writing 1)
    (hheight₂ : r₂.height = 2) (hshares : SharesPast l m m.head) :
    ∃ tip, UndisputedAlong l m removingOffers ∧ Branched l m.head removingOffers tip := by
  -- The first block of the branch names the quorum of the fork.
  have hvotes₁ : UndisputedAlong l m ([] ++ [.trusting (.forked 2 1) [.removing 1]]) := by
    refine (undisputedAlong_nil l m).snoc fun m' hled => ?_
    obtain rfl : m = m' := Except.ok.inj hled
    refine undisputed_of_fork hl.alone fun tx htx change hchange => ?_
    rw [List.mem_singleton.1 htx, Transaction.stateChange?_removing] at hchange
    rw [hm.head, hheight₁, ← Option.some.inj hchange]
    rfl
  have hbranch₀ : Branched l m.head [] m.head := .root
  obtain ⟨t₁, o₁, -, hbranch₁, hheight, hhash⟩ :=
    hbranch₀.exists_forked hshares.abreast 2 1 [.removing 1] (by rw [hm.head, hheight₁])
      (by rw [hm.head, hhash₁]) (hl.alone _) (by simp) (hl.recent_ne (Nat.le_of_eq hheight₂) _)
  obtain ⟨m₁, -, habreast₁⟩ :=
    hbranch₁.abreast hshares (by simp [Offer.readsAlike_trusting]) hvotes₁
  obtain ⟨t₂, o₂, -, hbranch₂, -, -⟩ :=
    hbranch₁.exists_forked habreast₁ 3 102 [] (by rw [hheight]) hhash (hl.alone _)
      (by simp; decide) (hl.recent_ne (by omega) _)
  exact ⟨t₂, hvotes₁.snoc fun _ _ => undisputed_of_quiet _ _ (by simp [Offer.trusting]), hbranch₂⟩

/-! ## The same registry either way -/

section Run

variable {l m : LiveRegistry} {base tip : Registry} {offers : List Offer}

/-- A branch that is evaluated beside the canonical chain, on top of a recent registry, leads to
the registry that one leads to which has processed the chain up to there and then the branch, if
the votes on the branch's state changes are those of the branch's own quorums: none of the
other quorums on record carries them, and where an own one does, the canonical chain has
reached its height. -/
theorem Branched.head_eq_tip (h : Branched l base offers tip) (hshares : SharesPast l m base)
    (hreads : ∀ o ∈ offers, o.ReadsAlike l.rules) (hvotes : UndisputedAlong l m offers) :
    ∃ m', m.led offers = .ok m' ∧ m'.head = tip ∧ ∀ o, offers.getLast? = some o →
      (l.afterOffers offers).history.alternatives.get? o.block.hash = some m'.head := by
  obtain ⟨m', hled, habreast⟩ := h.abreast hshares hreads hvotes
  refine ⟨m', hled, habreast.head, fun o ho => ?_⟩
  rw [habreast.head]
  cases h with
  | root => cases ho
  | @block offers o' tip next branched above onto fork unknown notCanonical accepted kept =>
      rw [List.getLast?_concat] at ho
      cases ho
      exact kept

end Run

/-- Eleven nodes are registered in the first block. A branch on top of it removes the node that is
tested there, while the canonical chain goes on without that. -/
theorem Branched.head_eq_tip_of_removal :
    ∃ l m m' tip,
      Extends m l ∧ SharesPast l m m.head ∧ (∀ o ∈ removingOffers, o.ReadsAlike l.rules) ∧
      UndisputedAlong l m removingOffers ∧ Branched l m.head removingOffers tip ∧
      m.led removingOffers = .ok m' ∧ m'.head = tip := by
  obtain ⟨r₁, hm, hsame₁, -, hheight₁, hhash₁, -⟩ :=
    mined_init.add (.refl _) 1 rfl elevenNodes (fun _ => kind_of_mem_elevenNodes) (by decide)
  generalize (((start .bridged ∅ []).init .trusting).2.addBlock .trusting (.plain 1 .v21)
    elevenNodes none).2 = m at hm
  obtain ⟨r₂, hl, -, -, hheight₂, -, hhistory⟩ := hm.add hsame₁ 2 (by rw [hheight₁]) []
    (by simp) (Nat.lt_of_le_of_lt (Nat.le_of_eq length_active_eleven) (by decide))
  have hextends : Extends m (m.addBlock .trusting (.plain 2 .v21) [] none).2 :=
    .add _ _ _ _ .refl
  have hshares := hm.sharesPast hextends (by rw [hhistory, History.recent_push, if_pos rfl])
  obtain ⟨tip, hvotes, hbranch⟩ := hm.exists_removing hl hheight₁ hhash₁ hheight₂ hshares
  have hreads : ∀ {rules : NetworkRules}, ∀ o ∈ removingOffers, o.ReadsAlike rules := by
    simp [removingOffers, Offer.readsAlike_trusting]
  obtain ⟨m', hled, hhead, -⟩ := hbranch.head_eq_tip hshares hreads hvotes
  exact ⟨_, m, m', tip, hextends, hshares, hreads, hvotes, hbranch, hled, hhead⟩

/-- A branch on which nodes are registered a block later than on the canonical chain. -/
def lateOffers : List Offer :=
  [.trusting (.forked 2 1) [], .trusting (.forked 3 102) elevenNodes]

/-- Such a branch, with the removal of the node that the canonical chain tests in between. -/
def outvotedOffers : List Offer := lateOffers ++ [.trusting (.forked 4 103) [.removing 2]]

section Outvoted

variable {l m : LiveRegistry} {r₁ r₂ r₃ : Registry}

/-- A registry that follows the branch with the late nodes recalls that nobody was tested in
between. -/
theorem Mined.exists_late (hm : Mined m r₁) (hl : Mined l r₃)
    (hsame₁ : Registry.idle.SameButQuorums r₁) (hheight₁ : r₁.height = 1)
    (hhash₁ : r₁.blockHash = .writing 1) (hheight₃ : r₃.height = 3)
    (hhash₂ : ∀ r, l.history.recent.get? 2 = some r → r.blockHash = .writing 2)
    (hshares : SharesPast l m m.head) :
    ∃ m₂ t₂ q, Branched l m.head lateOffers t₂ ∧ m.led lateOffers = .ok m₂ ∧
      Abreast (l.afterOffers lateOffers) m₂ t₂ ∧ Registry.late.SameButQuorums t₂ ∧
      t₂.height = 3 ∧ t₂.blockHash = .writing 103 ∧
      m₂.view.obligations? 2 = some q ∧ q.workers = [] := by
  have hrules : ∀ {offers tip}, Branched l m.head offers tip →
      (l.afterOffers offers).rules = NetworkRules.of .fakechain := fun h =>
    rules_of_bridged ((past_afterOffers h).1.trans hl.settings)
  -- The block without nodes.
  have hbranch₀ : Branched l m.head [] m.head := .root
  obtain ⟨t₁, o₁, happly₁, hbranch₁, hheight, hhash⟩ :=
    hbranch₀.exists_forked hshares.abreast 2 1 [] (by rw [hm.head, hheight₁])
      (by rw [hm.head, hhash₁]) (hl.alone _) (by simp)
      fun r hr => by rw [hhash₂ r hr]; decide
  have hsame : Registry.idleBeside.SameButQuorums t₁ := by
    rw [hm.head] at happly₁
    exact sameButQuorums_of_apply (hrules hbranch₀) (by simp) hsame₁ happly₁
  have hvotes₁ : UndisputedAlong l m ([] ++ [.trusting (.forked 2 1) []]) :=
    (undisputedAlong_nil l m).snoc fun _ _ => undisputed_of_quiet _ _ (by simp [Offer.trusting])
  obtain ⟨m₁, hled₁, habreast₁⟩ :=
    hbranch₁.abreast hshares (by simp [Offer.readsAlike_trusting]) hvotes₁
  -- The block in which the nodes are registered.
  obtain ⟨t₂, o₂, happly₂, hbranch₂, hheight₂, hhash₂⟩ :=
    hbranch₁.exists_forked habreast₁ 3 102 elevenNodes (by rw [hheight]) hhash (hl.alone _)
      (by simp; decide) (hl.recent_ne (Nat.le_of_eq hheight₃) _)
  have hvotes₂ : UndisputedAlong l m lateOffers :=
    hvotes₁.snoc fun _ _ => undisputed_of_quiet _ _ fun _ => kind_of_mem_elevenNodes
  obtain ⟨m₂, hled₂, habreast₂⟩ :=
    hbranch₂.abreast hshares (by simp [Offer.readsAlike_trusting]) hvotes₂
  obtain ⟨q, hq, hworkers⟩ : ∃ q, t₁.quorums.obligations = some q ∧ q.workers = [] := by
    have hformed := Registry.quorumsFormed_of_apply happly₁
    obtain ⟨q, hq, -⟩ := hformed.obligations
    exact ⟨q, hq, hformed.workers_eq_nil (hsame.active.trans active_idleBeside)
      (hsame.decommissioned.trans decommissioned_idleBeside) hq⟩
  refine ⟨m₂, t₂, q, hbranch₂, hled₂, habreast₂,
    sameButQuorums_of_apply (hrules hbranch₁) (fun _ => kind_of_mem_elevenNodes) hsame happly₂,
    hheight₂, hhash₂, ?_, hworkers⟩
  obtain ⟨m₁', outcome, hled₁', hadvance⟩ := led_append_eq_ok_iff.1 hled₂
  obtain rfl : m₁ = m₁' := Except.ok.inj (hled₁.symm.trans hled₁')
  rw [obligations?_of_advance hadvance (Nat.le_of_eq (by rw [habreast₁.head, hheight]))
    (by decide)]
  unfold view
  rw [HistoryView.obligations?_of, habreast₁.head, if_pos hheight, hq]

/-- The removal then takes effect beside the canonical chain, and not on the branch itself. -/
theorem Mined.exists_outvoted (hm : Mined m r₁) (hl : Mined l r₃)
    (hsame₁ : Registry.idle.SameButQuorums r₁) (hheight₁ : r₁.height = 1)
    (hhash₁ : r₁.blockHash = .writing 1) (hheight₃ : r₃.height = 3)
    (hrecent : l.history.recent.get? 2 = some r₂) (hhash₂ : r₂.blockHash = .writing 2)
    (hsame₂ : Registry.early.SameButQuorums r₂)
    (hformed₂ : r₁.QuorumsFormed (.plain 2 .v21) r₂) (hshares : SharesPast l m m.head) :
    ∃ m' tip, Branched l m.head outvotedOffers tip ∧ m.led outvotedOffers = .ok m' ∧
      m'.head ≠ tip := by
  obtain ⟨m₂, t₂, q₂, hbranch₂, hled₂, habreast₂, hsame, hheight, hhash, hq₂, hworkers⟩ :=
    hm.exists_late hl hsame₁ hheight₁ hhash₁ hheight₃
      (fun r hr => by rw [← Option.some.inj (hrecent.symm.trans hr), hhash₂]) hshares
  obtain ⟨hsettings, hsameRecent, -⟩ := past_afterOffers hbranch₂
  obtain ⟨tip, o, happly, hbranch, -, -⟩ :=
    hbranch₂.exists_forked habreast₂ 4 103 [.removing 2] (by rw [hheight]) hhash (hl.alone _)
      (by simp [lateOffers, Offer.trusting]; decide) (hl.recent_ne (by omega) _)
  obtain ⟨next, o', happly', -⟩ := Registry.exists_apply_eq_ok (r := t₂)
    (m₂.context .trusting m₂.view) [.removing 2]
    (show t₂.height + 1 = (Block.forked 4 103).height by rw [hheight]; rfl)
  have hadvance : m₂.advance .trusting (.forked 4 103) [.removing 2] none false =
      .ok (o', { m₂ with head := next, history := m₂.history.push 4 m₂.head }) := by
    refine advance_eq_ok_iff.2 ⟨next, ?_, by simp, rfl⟩
    rw [habreast₂.head]
    exact happly'
  refine ⟨_, tip, hbranch, led_append_eq_ok_iff.2 ⟨m₂, o', hled₂, hadvance⟩, fun heq => ?_⟩
  have heq : next = tip := heq
  -- The node that the canonical chain tests is there before the removal.
  obtain ⟨q, key, hq, hten, hkey, hknown⟩ := hformed₂.exists_worker (by
    rw [hsame₂.active, length_active_early]
    decide)
  have hrules : (l.afterOffers lateOffers).rules = NetworkRules.of .fakechain :=
    rules_of_bridged (hsettings.trans hl.settings)
  have hbefore : ∀ {l' : LiveRegistry} {view : HistoryView},
      l'.rules = NetworkRules.of .fakechain →
      key ∈ (t₂.draft (l'.context .trusting view) (.forked 4 103) []).registry.active.keys := by
    intro l' view hrules
    rw [draft_eq_trusting hrules (by simp) hsame, keys_draft_late, ← hsame₂.active]
    refine hknown.resolve_right fun hdown => ?_
    rw [hsame₂.decommissioned, decommissioned_early] at hdown
    cases hdown
  have hgone : key ∉ tip.active.keys := by
    obtain ⟨info, hinfo⟩ := Registry.exists_info_of_mem_select (hbefore hrules)
    refine Registry.not_mem_active_of_removal [] happly rfl rfl
      ⟨Transaction.stateChange?_removing 2, votingQuorum?_of_canonical ?_ hq ?_, hkey, hinfo⟩
    · show ((l.afterOffers lateOffers).besideView t₂).state? 2 = some r₂
      rw [state?_besideView, if_neg (by rw [hheight]; decide)]
      unfold History.at?
      rw [hsameRecent, hrecent]
      rfl
    · have hworker : 0 < q.workers.length := (List.getElem?_eq_some_iff.1 hkey).1
      exact carriedBy_removal (by rw [hten]; decide) hworker (show 2 < 4 by decide)
        (show 4 ≤ wrapAdd 2 voteLifetime by decide)
  have hstays : key ∈ next.active.keys := by
    have hlast := t₂.draft_concat_of_stateChange (m₂.context .trusting m₂.view) (.forked 4 103) []
      (show (Transaction.removing 2).kind = .stateChange from rfl)
    rw [List.nil_append] at hlast
    rw [Registry.mem_active_of_apply happly', hlast]
    -- On the branch itself there is nobody to vote on.
    rw [Draft.applyStateChange_of_untested (Transaction.stateChange?_removing 2) fun q' hq' => ?_]
    · exact hbefore (habreast₂.rules.trans hrules)
    · rw [votingQuorum?_eq rfl] at hq'
      have hown : m₂.view.obligations? 2 = some q' := (Option.filter_eq_some_iff.1 hq').1
      obtain rfl : q₂ = q' := Option.some.inj (hq₂.symm.trans hown)
      exact hworkers
  exact hgone (heq ▸ hstays)

end Outvoted

/-- Eleven nodes are registered in the second block of the canonical chain, and in the third of
another branch. A removal on that branch, with the votes of the canonical quorum after the second
block, takes effect beside the canonical chain; for a registry that has processed the first
block and then the branch, nobody has voted. -/
theorem Branched.head_ne_tip_of_canonical_votes :
    ∃ l m m' tip,
      m = (((start .bridged ∅ []).init .trusting).2.addBlock .trusting (.plain 1 .v21) [] none).2 ∧
      l = ((m.addBlock .trusting (.plain 2 .v21) elevenNodes none).2.addBlock .trusting
        (.plain 3 .v21) [] none).2 ∧
      SharesPast l m m.head ∧ (∀ o ∈ outvotedOffers, o.ReadsAlike l.rules) ∧
      Branched l m.head outvotedOffers tip ∧ m.led outvotedOffers = .ok m' ∧ m'.head ≠ tip := by
  obtain ⟨r₁, hm, hsame₁, -, hheight₁, hhash₁, -⟩ :=
    mined_init.add (.refl _) 1 rfl [] (by simp) (by decide)
  obtain ⟨m, heqm⟩ : ∃ m, m = (((start .bridged ∅ []).init .trusting).2.addBlock .trusting
    (.plain 1 .v21) [] none).2 := ⟨_, rfl⟩
  rw [← heqm] at hm
  obtain ⟨r₂, hl₂, hsame₂, hformed₂, hheight₂, hhash₂, hhistory₂⟩ := hm.add hsame₁ 2
    (by rw [hheight₁]) elevenNodes (fun _ => kind_of_mem_elevenNodes)
    (Nat.lt_of_le_of_lt (Nat.le_of_eq (congrArg List.length active_idle)) (by decide))
  obtain ⟨r₃, hl₃, -, -, hheight₃, -, hhistory₃⟩ := hl₂.add hsame₂ 3 (by rw [hheight₂]) []
    (by simp) (Nat.lt_of_le_of_lt (Nat.le_of_eq length_active_early) (by decide))
  have hshares := hm.sharesPast (.add .trusting (.plain 3 .v21) [] none
    (.add .trusting (.plain 2 .v21) elevenNodes none .refl)) (by
      rw [hhistory₃, History.recent_push, if_neg (by omega),
        if_pos (by rw [hheight₁]; decide), hhistory₂, History.recent_push, if_pos rfl])
  obtain ⟨m', tip, hbranch, hled, hne⟩ := hm.exists_outvoted hl₃ hsame₁ hheight₁ hhash₁ hheight₃
    (by rw [hhistory₃, History.recent_push, if_pos hheight₂.symm]) hhash₂ hsame₂ hformed₂ hshares
  have hreads : ∀ {rules : NetworkRules}, ∀ o ∈ outvotedOffers, o.ReadsAlike rules := by
    simp [outvotedOffers, lateOffers, Offer.readsAlike_trusting]
  exact ⟨_, m, m', tip, heqm, rfl, hshares, hreads, hbranch, hled, hne⟩

end LiveRegistry

end StakeRegistry
