import Mathlib.Algebra.Order.BigOperators.Group.List
import Mathlib.Algebra.Order.Group.Nat
import StakeRegistry.Proofs.Staking.Portions
import StakeRegistry.Proofs.Transition.BlsKeys
import StakeRegistry.Proofs.Transition.Reregistering

/-!
# What exits pay back

An exit pays back what has been contributed to the node that it names, less what the operator bears
when the contract releases too little, and leaves the entry as it is. So the node can be named
again, and is paid back again: what is paid for a node between two of its registrations is counted
by the exits that name it. Main statements:

* `sum_exitStakes_add`: what an exit pays and what the operator bears make up all stakes;
* `AppliedTx.returned_cases`: only exits pay, and what one pays;
* `Applied.returned_of_apply`: a block pays back what its transactions do;
* `Registry.Passes.paid_since_registration`: what is paid for a node while its entry lasts.
-/

set_option autoImplicit false

namespace StakeRegistry

/-! ## Sums of payments -/

/-- The sum of stakes that are paid back together. -/
def ReturnedStakes.total (returned : ReturnedStakes) : Nat := (returned.stakes.map (·.amount)).sum

/-- What is paid back for a node. -/
def paidFor (key : PublicKey) (payments : List ReturnedStakes) : Nat :=
  ((payments.filter fun returned => returned.nodeKey = key).map ReturnedStakes.total).sum

theorem paidFor_append (key : PublicKey) (first second : List ReturnedStakes) :
    paidFor key (first ++ second) = paidFor key first + paidFor key second := by
  unfold paidFor
  rw [List.filter_append, List.map_append, List.sum_append_nat]

theorem paidFor_flatMap {α : Type} (key : PublicKey) (f : α → List ReturnedStakes) (l : List α) :
    paidFor key (l.flatMap f) = (l.map fun a => paidFor key (f a)).sum := by
  induction l with
  | nil => rfl
  | cons a l ih => rw [List.flatMap_cons, paidFor_append, ih, List.map_cons, List.sum_cons]

/-- What the contract keeps of the requirement when it releases an amount. -/
def NetworkRules.shortfall (rules : NetworkRules) (released : Nat) : Nat :=
  rules.stakingRequirement - released

/-- What the first contributor, the operator, has contributed. -/
def NodeInfo.operatorAmount (info : NodeInfo) : Nat :=
  (info.contributors.head?.map (·.amount)).getD 0

/-- What an exit pays and what the operator bears of the shortfall make up all stakes. -/
theorem sum_exitStakes_add (rules : NetworkRules) (info : NodeInfo) (released : Nat) :
    ((exitStakes rules info released).map (·.amount)).sum +
        min (rules.shortfall released) info.operatorAmount =
      (info.contributors.map (·.amount)).sum := by
  unfold exitStakes NodeInfo.operatorAmount NetworkRules.shortfall
  cases info.contributors with
  | nil => simp
  | cons operator others =>
      simp only [List.map_cons, List.map_map, List.sum_cons, List.head?_cons, Option.map_some,
        Option.getD_some]
      have hothers :
          (others.map ((·.amount) ∘ fun c => ReturnedStake.mk c.ethAddress c.amount)).sum =
            (others.map (·.amount)).sum := rfl
      rw [hothers]
      omega

/-- An exit pays no more than what has been contributed. -/
theorem sum_exitStakes_le (rules : NetworkRules) (info : NodeInfo) (released : Nat) :
    ((exitStakes rules info released).map (·.amount)).sum ≤
      (info.contributors.map (·.amount)).sum := by
  rw [← sum_exitStakes_add rules info released]
  exact Nat.le_add_right _ _

/-- It pays all of that when the contract releases the requirement. -/
theorem sum_exitStakes_eq {rules : NetworkRules} {released : Nat} (info : NodeInfo)
    (h : rules.stakingRequirement ≤ released) :
    ((exitStakes rules info released).map (·.amount)).sum =
      (info.contributors.map (·.amount)).sum := by
  have hnone : rules.shortfall released = 0 := Nat.sub_eq_zero_of_le h
  rw [← sum_exitStakes_add rules info released, hnone, Nat.zero_min, Nat.add_zero]

/-! ## One transaction -/

namespace Draft

variable {ctx : Context} {block : Block} {index : Nat} {tx : Transaction} {d d' : Draft}

/-- No transaction but an exit pays anything back. -/
theorem returned_of_move (h : Move ctx block index tx d d') (hkind : tx.kind ≠ .bridgeExit) :
    d'.outcome.returned = d.outcome.returned := by
  have henter : ∀ (d : Draft) (key : PublicKey) (info : NodeInfo),
      (d.enter block.fork key info).outcome.returned = d.outcome.returned := by
    intro d key info
    show (if _ then _ else _ : Outcome).returned = _
    split <;> rfl
  cases h with
  | @staked entered funded kind enters credits =>
      have hentered : entered.outcome.returned = d.outcome.returned := by
        cases enters with
        | nobody => rfl
        | newcomer registers vacant => exact henter d _ _
        | again registers found renews => exact henter d _ _
      have hfunded : d'.outcome.returned = entered.outcome.returned := by
        cases credits with
        | nobody => rfl
        | taken decoded found accepted => rfl
      exact hfunded.trans hentered
  | exited kind => exact absurd kind hkind
  | _ => rfl

/-- What an exit pays back: nothing if it names no registered node, else the stakes of the node. -/
theorem returned_exit (ctx : Context) (block : Block) (tx : Transaction) (d : Draft) :
    (tx.bridgeExit?.bind (d.registry.findByBlsKey? ·.blsKey) = none ∧
      (d.exit ctx block tx).outcome.returned = d.outcome.returned) ∨
    ∃ key exit info, tx.bridgeExit? = some exit ∧
      d.registry.findByBlsKey? exit.blsKey = some key ∧ d.registry.info? key = some info ∧
      (d.exit ctx block tx).outcome.returned = d.outcome.returned ++
        [⟨key, block.height, exitDelay ctx.rules exit.amount,
          exitStakes ctx.rules info exit.amount⟩] := by
  unfold exit
  cases hexit : tx.bridgeExit? with
  | none => exact .inl ⟨rfl, rfl⟩
  | some exit =>
      dsimp only
      cases hkey : d.registry.findByBlsKey? exit.blsKey with
      | none => exact .inl ⟨hkey, rfl⟩
      | some key =>
          obtain ⟨info, hinfo, -⟩ := Registry.blsKey_of_findByBlsKey? hkey
          dsimp only
          rw [hinfo]
          exact .inr ⟨key, exit, info, rfl, hkey, hinfo, rfl⟩

end Draft

namespace AppliedTx

/-- The stakes that the transaction pays back. -/
def returned (s : AppliedTx) : List ReturnedStakes :=
  s.after.outcome.returned.drop s.before.outcome.returned.length

/-- Whether the transaction is an exit that names a registered node. -/
def exits (s : AppliedTx) (key : PublicKey) : Bool :=
  s.tx.kind == .bridgeExit && s.before.named? s.tx == some key

/-- What the contract releases by an exit. -/
def released (s : AppliedTx) : Nat := (s.tx.bridgeExit?.map (·.amount)).getD 0

/-- The transaction brings a stake that a registered node takes. -/
def Credits (s : AppliedTx) (key : PublicKey) : Prop :=
  ∃ info stake, Draft.Credits s.ctx s.block s.tx s.before key info stake

variable {s : AppliedTx} {key : PublicKey} {amount : Nat}

theorem after_of_exit (hkind : s.tx.kind = .bridgeExit) :
    s.after = s.before.exit s.ctx s.block s.tx := by
  have hhandled : s.after = s.before.leave s.ctx s.block s.tx ∧ s.tx.kind = .bridgeLeave ∨
      s.after = s.before.exit s.ctx s.block s.tx ∧ s.tx.kind = .bridgeExit ∨
      s.after = s.before.expel s.tx ∧ s.tx.kind = .bridgeDeregister :=
    Draft.applyTransaction_of_bridge (by rw [hkind]; rfl)
  simpa [hkind] using hhandled

theorem exits_of_exit (hkind : s.tx.kind = .bridgeExit) (key : PublicKey) :
    s.exits key =
      (s.tx.bridgeExit?.bind (s.before.registry.findByBlsKey? ·.blsKey) == some key) := by
  unfold exits Draft.named? Transaction.namedBlsKey?
  rw [hkind]
  dsimp only
  rw [Option.bind_map]
  rfl

theorem exits_eq_false (hkind : s.tx.kind ≠ .bridgeExit) (key : PublicKey) :
    s.exits key = false := by
  simp [exits, hkind]

/-- What a transaction adds to the payments: nothing, or the stakes of the registered node that it
names as an exit. -/
theorem exists_returned (s : AppliedTx) :
    ∃ new, s.after.outcome.returned = s.before.outcome.returned ++ new ∧
      ((new = [] ∧ ∀ key, s.exits key = false) ∨
      ∃ key info, s.before.registry.info? key = some info ∧
        (∀ other, s.exits other = (other == key)) ∧
        new = [⟨key, s.block.height, exitDelay s.ctx.rules s.released,
          exitStakes s.ctx.rules info s.released⟩]) := by
  by_cases hkind : s.tx.kind = .bridgeExit
  · rw [after_of_exit hkind]
    rcases s.before.returned_exit s.ctx s.block s.tx with
      ⟨hnone, hsame⟩ | ⟨key, exit, info, hexit, hkey, hinfo, hpaid⟩
    · refine ⟨[], by rw [hsame, List.append_nil], .inl ⟨rfl, fun key => ?_⟩⟩
      rw [exits_of_exit hkind, hnone]
      rfl
    · have hreleased : s.released = exit.amount := by
        unfold released
        rw [hexit]
        rfl
      refine ⟨_, hpaid, .inr ⟨key, info, hinfo, fun other => ?_, by rw [hreleased]⟩⟩
      rw [exits_of_exit hkind, hexit, Option.bind_some, hkey, Option.some_beq_some, Bool.beq_comm]
  · have hsame : s.after.outcome.returned = s.before.outcome.returned :=
      Draft.returned_of_move (Draft.move_applyTransaction s.before s.tx s.index) hkind
    exact ⟨[], by rw [hsame, List.append_nil], .inl ⟨rfl, exits_eq_false hkind⟩⟩

theorem returned_eq {new : List ReturnedStakes}
    (h : s.after.outcome.returned = s.before.outcome.returned ++ new) : s.returned = new := by
  unfold returned
  rw [h, List.drop_left]

/-- Payments are added behind those of the transactions before. -/
theorem returned_after (s : AppliedTx) :
    s.after.outcome.returned = s.before.outcome.returned ++ s.returned := by
  obtain ⟨new, hafter, -⟩ := s.exists_returned
  rw [returned_eq hafter, hafter]

/-- Only an exit that names a registered node pays anything back, and it pays the stakes of that
node. -/
theorem returned_cases (s : AppliedTx) :
    (s.returned = [] ∧ ∀ key, s.exits key = false) ∨
    ∃ key info, s.before.registry.info? key = some info ∧
      (∀ other, s.exits other = (other == key)) ∧
      s.returned = [⟨key, s.block.height, exitDelay s.ctx.rules s.released,
        exitStakes s.ctx.rules info s.released⟩] := by
  obtain ⟨new, hafter, hcases⟩ := s.exists_returned
  rwa [returned_eq hafter]

/-- A registration through the bridge pays nothing back. -/
theorem Bridges.returned_eq {info : NodeInfo} (h : s.Bridges key info) : s.returned = [] := by
  have hkind : s.tx.kind ≠ .bridgeExit := by
    rw [h.kind]
    decide
  rcases s.returned_cases with ⟨hnone, -⟩ | ⟨node, -, -, hexits, -⟩
  · exact hnone
  · have hnode := hexits node
    rw [exits_eq_false hkind, beq_self_eq_true] at hnode
    cases hnode

/-- What a transaction pays back for a node: nothing, or the stakes of its entry if it is an exit
that names the node. -/
theorem paidFor_returned_cases (s : AppliedTx) (key : PublicKey) :
    (s.exits key = false ∧ paidFor key s.returned = 0) ∨
    ∃ info, s.before.registry.info? key = some info ∧ s.exits key = true ∧
      paidFor key s.returned = ((exitStakes s.ctx.rules info s.released).map (·.amount)).sum := by
  rcases s.returned_cases with ⟨hnone, hexits⟩ | ⟨node, info, hinfo, hexits, hpaid⟩
  · rw [hnone]
    exact .inl ⟨hexits key, rfl⟩
  · rw [hexits, hpaid]
    unfold paidFor
    by_cases hkey : key = node
    · subst hkey
      refine .inr ⟨info, hinfo, beq_self_eq_true key, ?_⟩
      simp [ReturnedStakes.total]
    · exact .inl (by simp [hkey, Ne.symm hkey])

/-- It pays no more than an amount, when no more is contributed to the node. -/
theorem paidFor_returned_le (h : ∀ info, s.before.registry.info? key = some info →
    (info.contributors.map (·.amount)).sum ≤ amount) :
    paidFor key s.returned ≤ if s.exits key then amount else 0 := by
  rcases s.paidFor_returned_cases key with ⟨hexits, hpaid⟩ | ⟨info, hinfo, hexits, hpaid⟩
  · rw [hpaid]
    exact Nat.zero_le _
  · rw [hpaid, hexits, if_pos rfl]
    exact Nat.le_trans (sum_exitStakes_le _ _ _) (h info hinfo)

/-- An exit pays all that is contributed to the node when the contract releases the requirement. -/
theorem paidFor_returned_eq (h : ∀ info, s.before.registry.info? key = some info →
    (info.contributors.map (·.amount)).sum = amount)
    (hreleased : s.exits key = true → s.ctx.rules.stakingRequirement ≤ s.released) :
    paidFor key s.returned = if s.exits key then amount else 0 := by
  rcases s.paidFor_returned_cases key with ⟨hexits, hpaid⟩ | ⟨info, hinfo, hexits, hpaid⟩
  · rw [hpaid, hexits]
    rfl
  · rw [hpaid, hexits, if_pos rfl]
    exact (sum_exitStakes_eq info (hreleased hexits)).trans (h info hinfo)

/-- A transaction that brings no stake to a node, and does not register it, leaves its stakes. -/
theorem sameStakes_after (hold : ∀ origin, s.created? ≠ some (key, origin))
    (hcredits : ¬ s.Credits key) :
    s.before.registry.KeepsEntry NodeInfo.SameStakes key s.after.registry := by
  intro info' hinfo'
  obtain ⟨info, hinfo, hsame | ⟨stake, hcredit, -⟩⟩ :=
    Draft.stakes_of_applyTransaction hold hinfo'
  · exact ⟨info, hinfo, hsame⟩
  · exact absurd ⟨info, stake, hcredit⟩ hcredits

end AppliedTx

/-! ## A block -/

namespace Draft

theorem returned_stepsFrom (ctx : Context) (block : Block) (txs : List Transaction) (index : Nat)
    (d : Draft) :
    ((txs.zipIdx index).foldl (fun d p => d.applyTransaction ctx block p.1 p.2)
        d).outcome.returned =
      d.outcome.returned ++ (stepsFrom ctx block txs index d).flatMap AppliedTx.returned := by
  induction txs generalizing index d with
  | nil => simp [stepsFrom]
  | cons tx txs ih =>
      have hfirst : (d.applyTransaction ctx block tx index).outcome.returned =
          d.outcome.returned ++ AppliedTx.returned ⟨ctx, block, index, tx, d⟩ :=
        AppliedTx.returned_after ⟨ctx, block, index, tx, d⟩
      rw [List.zipIdx_cons, List.foldl_cons, ih, hfirst, stepsFrom, List.flatMap_cons,
        List.append_assoc]

end Draft

/-- A block pays back what its transactions do. -/
theorem Applied.returned_of_apply {a : Applied} {outcome : Outcome}
    (h : a.before.apply a.ctx a.block a.txs = .ok (a.after, outcome)) :
    outcome.returned = a.steps.flatMap AppliedTx.returned := by
  obtain ⟨-, rfl, -⟩ := Registry.apply_eq_ok_iff.1 h
  have hopened : (a.before.opened a.ctx a.block).outcome.returned = [] := by
    rw [Registry.outcome_opened]
  have hall := Draft.returned_stepsFrom a.ctx a.block a.txs 0 (a.before.opened a.ctx a.block)
  rwa [hopened, List.nil_append] at hall

/-! ## While an entry lasts -/

namespace Registry

variable {r r' : Registry} {life : List AppliedTx} {key : PublicKey} {info : NodeInfo}

/-- While no transaction registers a node, whatever entry it has continues the one that it had. -/
theorem Passes.continues (h : Passes r life r') (hinfo : r.info? key = some info)
    (hlife : ∀ s ∈ life, ∀ origin, s.created? ≠ some (key, origin)) :
    ∀ s ∈ life, ∀ info', s.before.registry.info? key = some info' → info.Continues info' := by
  intro s hs info' hinfo'
  obtain ⟨first, hfirst, hcontinues⟩ := (h.keepsEntry (R := NodeInfo.Continues)
    (fun hsame => hsame.continues)
    fun s hs _ => Draft.continues_applyTransaction (hlife s hs)).2 s hs info' hinfo'
  obtain rfl : first = info := Option.some.inj (hfirst.symm.trans hinfo)
  exact hcontinues

/-- While it takes no stake either, its stakes are those that it had. -/
theorem Passes.sameStakes (h : Passes r life r') (hinfo : r.info? key = some info)
    (hlife : ∀ s ∈ life, ∀ origin, s.created? ≠ some (key, origin))
    (hcredits : ∀ s ∈ life, ¬ s.Credits key) :
    ∀ s ∈ life, ∀ info', s.before.registry.info? key = some info' → info.SameStakes info' := by
  intro s hs info' hinfo'
  obtain ⟨first, hfirst, hsame⟩ := (h.keepsEntry (R := NodeInfo.SameStakes)
    (fun hsame => hsame.toSameStakes)
    fun s hs => AppliedTx.sameStakes_after (hlife s hs) (hcredits s hs)).2 s hs info' hinfo'
  obtain rfl : first = info := Option.some.inj (hfirst.symm.trans hinfo)
  exact hsame

/-- A node that is fully funded takes no stake as long as its entry lasts. -/
theorem Passes.no_credits (h : Passes r life r') (hinfo : r.info? key = some info)
    (hlife : ∀ s ∈ life, ∀ origin, s.created? ≠ some (key, origin))
    (hfunded : info.isFullyFunded = true) : ∀ s ∈ life, ¬ s.Credits key := by
  rintro s hs ⟨info', stake, hcredit⟩
  have hcontinues := h.continues hinfo hlife s hs info' hcredit.registered
  have hunfunded := NodeInfo.unfunded_of_acceptsStake hcredit.accepted
  have hrequirement := hcontinues.requirement
  have hcontributed := hcontinues.contributed
  unfold NodeInfo.isFullyFunded at hfunded hunfunded
  have henough : info.stakingRequirement ≤ info.totalContributed := of_decide_eq_true hfunded
  have hmissing : ¬ info'.stakingRequirement ≤ info'.totalContributed :=
    of_decide_eq_false hunfunded
  omega

/-- What is paid back for a node from its registration on, as long as it is not registered again:
for each exit that names it the requirement at most. If it takes no more stakes, each exit pays what
was contributed at the registration at most, and just that when the contract releases the
requirement. -/
theorem Passes.paid_since_registration (h : Passes r life r') (hinfo : r.info? key = some info)
    (hbalanced : info.Balanced) (hlife : ∀ s ∈ life, ∀ origin, s.created? ≠ some (key, origin)) :
    paidFor key (life.flatMap AppliedTx.returned) ≤
        life.countP (·.exits key) * info.stakingRequirement ∧
    ((∀ s ∈ life, ¬ s.Credits key) →
      paidFor key (life.flatMap AppliedTx.returned) ≤
          life.countP (·.exits key) * info.totalContributed ∧
      ((∀ s ∈ life, s.exits key = true → s.ctx.rules.stakingRequirement ≤ s.released) →
        paidFor key (life.flatMap AppliedTx.returned) =
          life.countP (·.exits key) * info.totalContributed)) := by
  rw [paidFor_flatMap]
  simp only [← sum_map_ite]
  refine ⟨List.sum_le_sum fun s hs => ?_, fun hcredits => ⟨List.sum_le_sum fun s hs => ?_,
    fun hreleased => ?_⟩⟩
  · refine AppliedTx.paidFor_returned_le fun info' hinfo' => ?_
    have hcontinues := h.continues hinfo hlife s hs info' hinfo'
    have hbooks := hcontinues.balanced hbalanced
    rw [← hbooks.contributed, ← hcontinues.requirement]
    exact Nat.le_trans hbooks.contributed_le hbooks.reserved_le
  · refine AppliedTx.paidFor_returned_le fun info' hinfo' => ?_
    have hsame := h.sameStakes hinfo hlife hcredits s hs info' hinfo'
    rw [hsame.contributors, ← hbalanced.contributed]
  · refine congrArg List.sum (List.map_congr_left fun s hs => ?_)
    refine AppliedTx.paidFor_returned_eq (fun info' hinfo' => ?_) (hreleased s hs)
    have hsame := h.sameStakes hinfo hlife hcredits s hs info' hinfo'
    rw [hsame.contributors, ← hbalanced.contributed]

end Registry

end StakeRegistry
