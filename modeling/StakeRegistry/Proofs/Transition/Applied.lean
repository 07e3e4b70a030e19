import StakeRegistry.Proofs.Transition.StateChanges

/-!
# Blocks that were applied

A block on record, with the surroundings and transactions that it was applied with and the
registries before and after, and rows of such blocks, each applied to the registry that the one
before it has left.
-/

set_option autoImplicit false

namespace StakeRegistry

/-- A block that was applied: what it was applied with, and the registries before and after. -/
structure Applied where
  ctx : Context
  block : Block
  txs : List Transaction
  before : Registry
  after : Registry

namespace Applied

/-- The draft of the block after its first transactions. -/
def draftAt (a : Applied) (count : Nat) : Draft :=
  a.before.draft a.ctx a.block (a.txs.take count)

/-- The registry after the first transactions of a block. -/
def registryAt (a : Applied) (count : Nat) : Registry :=
  (a.before.draft a.ctx a.block (a.txs.take count)).registry

theorem draftAt_zero (a : Applied) : a.draftAt 0 = a.before.opened a.ctx a.block := rfl

theorem draftAt_succ (a : Applied) {i : Nat} {tx : Transaction} (htx : a.txs[i]? = some tx) :
    a.draftAt (i + 1) = (a.draftAt i).applyTransaction a.ctx a.block tx i := by
  have hlength : (a.txs.take i).length = i :=
    List.length_take_of_le (Nat.le_of_lt (List.getElem?_eq_some_iff.1 htx).1)
  unfold draftAt
  rw [List.take_add_one, htx, Option.toList_some, Registry.draft_concat, hlength]

theorem draftAt_length (a : Applied) :
    a.draftAt a.txs.length = a.before.draft a.ctx a.block a.txs := by
  rw [draftAt, List.take_length]

/-- A state change is applied to the registry that the transactions before it have left. -/
theorem registryAt_succ (a : Applied) {i : Nat} {tx : Transaction}
    (htx : a.txs[i]? = some tx) (hkind : tx.kind = .stateChange) :
    a.registryAt (i + 1) =
      ((a.before.draft a.ctx a.block (a.txs.take i)).applyStateChange a.ctx a.block
        tx).registry := by
  show (a.draftAt (i + 1)).registry = _
  rw [a.draftAt_succ htx, Draft.applyTransaction_of_stateChange hkind]
  rfl

end Applied

namespace Registry

/-- Blocks applied in a row, from a registry on. -/
inductive Row : Registry → List Applied → Prop where
  | nil (r : Registry) : Row r []
  | cons {a : Applied} {row : List Applied} {outcome : Outcome}
      (applied : a.before.apply a.ctx a.block a.txs = .ok (a.after, outcome))
      (rest : Row a.after row) : Row a.before (a :: row)

/-! ## All but the quorums -/

/-- The second registry is the first, with some quorums. -/
def SameButQuorums (r r' : Registry) : Prop := ∃ quorums, r' = { r with quorums := quorums }

theorem sameButQuorums_of_apply {r next : Registry} {ctx : Context} {block : Block}
    {txs : List Transaction} {outcome : Outcome}
    (h : r.apply ctx block txs = .ok (next, outcome)) :
    (r.settled ctx block txs).SameButQuorums next := by
  obtain ⟨-, -, quorums, -, rfl⟩ := apply_eq_ok_iff.1 h
  exact ⟨quorums, rfl⟩

namespace SameButQuorums

variable {r r' : Registry}

theorem refl (r : Registry) : r.SameButQuorums r := ⟨r.quorums, rfl⟩

theorem info?_eq (h : r.SameButQuorums r') (key : PublicKey) : r'.info? key = r.info? key := by
  obtain ⟨quorums, rfl⟩ := h
  rfl

theorem active (h : r.SameButQuorums r') : r'.active = r.active := by
  obtain ⟨quorums, rfl⟩ := h
  rfl

theorem decommissioned (h : r.SameButQuorums r') : r'.decommissioned = r.decommissioned := by
  obtain ⟨quorums, rfl⟩ := h
  rfl

theorem leader (h : r.SameButQuorums r') : r'.leader = r.leader := by
  obtain ⟨quorums, rfl⟩ := h
  rfl

/-- A block forgets the quorums before it. -/
theorem draft_eq (h : r.SameButQuorums r') (ctx : Context) (block : Block)
    (txs : List Transaction) : r'.draft ctx block txs = r.draft ctx block txs := by
  obtain ⟨quorums, rfl⟩ := h
  rfl

theorem settled_eq (h : r.SameButQuorums r') (ctx : Context) (block : Block)
    (txs : List Transaction) : r'.settled ctx block txs = r.settled ctx block txs := by
  unfold settled
  rw [h.draft_eq]

end SameButQuorums

end Registry

end StakeRegistry
