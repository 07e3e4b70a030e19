import StakeRegistry.Quorum.Pulse

/-!
# The walk down the ancestors

The entropy of a Pulse quorum is read off the ancestors of a block, on a walk from parent to
parent that stops at the first one which is low enough or missing. What it finds depends on the
ancestors alone. Main statements:

* `ancestryDownTo_eq_endless_iff`: the walk has no end exactly if no ancestor stops it;
* `pulseEntropy?_ne_none`: so the entropy has an answer where some generation stops the walk, and
  none on top of a block that is its own parent (`pulseEntropy?_eq_none_of_loop`);
* `ancestryDownTo_eq_reached`: the blocks that the walk down from the top collects;
* `ChainReader.SharesAncestry.pulseEntropy?_eq`: readers that share the ancestors agree.
-/

set_option autoImplicit false

namespace StakeRegistry

/-! ## Ancestors -/

namespace ChainReader

/-- The ancestor of a block so many generations back, the block itself for none; none if it or one
on the way is missing. -/
def ancestor? (chain : ChainReader) (b : Block) : Nat → Option Block
  | 0 => some b
  | n + 1 => (chain.ancestor? b n).bind fun a => chain.blockByHash? a.prevHash

/-- The parents of a block and of its ancestors, where present, stand one lower than their
children. -/
def Descends (chain : ChainReader) (b : Block) : Prop :=
  ∀ n a, chain.ancestor? b n = some a → ∀ parent, chain.blockByHash? a.prevHash = some parent →
    parent.height + 1 = a.height

/-- The ancestors of a block come to an end as far as its entropy goes: some generation of them is
missing, or stands lower than the block by the lag. On a chain whose blocks stand above their
parents that is so after a few generations. -/
def AncestryEnds (chain : ChainReader) (top : Hash) : Prop :=
  ∀ b, chain.blockByHash? top = some b → entropyLag ≤ b.height →
    ∃ n < ancestryLimit, ∀ a, chain.ancestor? b n = some a → a.height + entropyLag ≤ b.height

variable {chain : ChainReader} {b p : Block}

/-- A block's ancestors are its parent's, one generation further back. -/
theorem ancestor?_succ (chain : ChainReader) (b : Block) (n : Nat) :
    chain.ancestor? b (n + 1) =
      (chain.blockByHash? b.prevHash).bind fun parent => chain.ancestor? parent n := by
  induction n with
  | zero => exact (Option.bind_fun_some _).symm
  | succ n ih =>
      rw [ancestor?, ih, Option.bind_assoc]
      rfl

theorem ancestor?_of_parent (hparent : chain.blockByHash? b.prevHash = some p) (n : Nat) :
    chain.ancestor? b (n + 1) = chain.ancestor? p n := by
  rw [ancestor?_succ, hparent, Option.bind_some]

/-- Behind a missing ancestor all are missing. -/
theorem ancestor?_eq_none_of_le {n m : Nat} (hle : n ≤ m) (h : chain.ancestor? b n = none) :
    chain.ancestor? b m = none := by
  induction hle with
  | refl => exact h
  | step _ ih => rw [ancestor?, ih, Option.bind_none]

theorem Descends.parent (h : chain.Descends b)
    (hparent : chain.blockByHash? b.prevHash = some p) : chain.Descends p :=
  fun n a ha => h (n + 1) a ((ancestor?_of_parent hparent n).trans ha)

theorem Descends.height_parent (h : chain.Descends b)
    (hparent : chain.blockByHash? b.prevHash = some p) : p.height + 1 = b.height :=
  h 0 b rfl p hparent

theorem Descends.height_ancestor (h : chain.Descends b) {n : Nat} {a : Block}
    (ha : chain.ancestor? b n = some a) : a.height + n = b.height := by
  induction n generalizing a with
  | zero =>
      cases ha
      rfl
  | succ n ih =>
      obtain ⟨child, hchild, hparent⟩ := Option.bind_eq_some_iff.1 ha
      have hheight := ih hchild
      have hbelow := h n child hchild a hparent
      omega

/-- Where parents stand one lower than their children, the lag itself is the generation that ends
the ancestry. -/
theorem AncestryEnds.of_descends {top : Hash}
    (h : ∀ b, chain.blockByHash? top = some b → chain.Descends b) : chain.AncestryEnds top :=
  fun b hb _ => ⟨entropyLag, by decide, fun _ ha => Nat.le_of_eq ((h b hb).height_ancestor ha)⟩

end ChainReader

/-! ## The walk down -/

section Walk

variable {chain : ChainReader} {b : Block} {floor : Nat}

/-- A walk that is given some steps has no end exactly if it finds as many ancestors, none of which
is low enough before the last. -/
theorem ancestryDownTo_eq_endless_iff (steps : Nat) (above : List Block) :
    ancestryDownTo chain floor steps b above = .endless ↔
      chain.ancestor? b steps ≠ none ∧
        ∀ n < steps, ∀ a, chain.ancestor? b n = some a → floor < a.height := by
  induction steps generalizing b above with
  | zero => exact iff_of_true rfl ⟨nofun, nofun⟩
  | succ steps ih =>
      unfold ancestryDownTo
      rw [Nat.forall_lt_succ_left', ChainReader.ancestor?_succ]
      by_cases hlow : b.height ≤ floor
      · rw [if_pos hlow]
        refine iff_of_false nofun ?_
        rintro ⟨-, hhigh, -⟩
        exact Nat.not_le_of_lt (hhigh b rfl) hlow
      · rw [if_neg hlow]
        have hhigh : ∀ a, chain.ancestor? b 0 = some a → floor < a.height := by
          rintro a ⟨⟩
          exact Nat.lt_of_not_le hlow
        cases hparent : chain.blockByHash? b.prevHash with
        | none => exact iff_of_false nofun fun h => h.1 rfl
        | some parent =>
            simp only [ChainReader.ancestor?_of_parent hparent]
            exact (ih (b :: above)).trans (and_congr_right fun _ => (and_iff_right hhigh).symm)

/-- The walk ends at the floor, or earlier at a parent that is missing. -/
theorem ancestryDownTo_eq_missing (hdescends : chain.Descends b) {depth : Nat}
    (hdepth : b.height = floor + depth) (hmissing : chain.ancestor? b depth = none) {steps : Nat}
    (hsteps : depth ≤ steps) (above : List Block) :
    ancestryDownTo chain floor steps b above = .missing := by
  induction depth generalizing b steps above with
  | zero => cases hmissing
  | succ depth ih =>
      obtain ⟨steps, rfl⟩ := Nat.exists_eq_succ_of_ne_zero (n := steps) (by omega)
      unfold ancestryDownTo
      rw [if_neg (by omega)]
      cases hparent : chain.blockByHash? b.prevHash with
      | none => rfl
      | some parent =>
          have hheight := hdescends.height_parent hparent
          rw [ChainReader.ancestor?_of_parent hparent] at hmissing
          exact ih (hdescends.parent hparent) (by omega) hmissing (by omega) _

/-- When no ancestor is missing, the walk collects all of them, the one furthest back first. -/
theorem ancestryDownTo_eq_reached (hdescends : chain.Descends b) {depth : Nat}
    (hdepth : b.height = floor + depth) (hpresent : chain.ancestor? b depth ≠ none) {steps : Nat}
    (hsteps : depth < steps) (above : List Block) :
    ∃ blocks, ancestryDownTo chain floor steps b above = .reached (blocks ++ above) ∧
      blocks.length = depth + 1 ∧ ∀ i ≤ depth, blocks[i]? = chain.ancestor? b (depth - i) := by
  obtain ⟨steps, rfl⟩ := Nat.exists_eq_succ_of_ne_zero (Nat.ne_zero_of_lt hsteps)
  induction depth generalizing b steps above with
  | zero =>
      refine ⟨[b], ?_, rfl, ?_⟩
      · rw [ancestryDownTo, if_pos (by omega)]
        rfl
      · intro i hi
        obtain rfl := Nat.le_zero.1 hi
        rfl
  | succ depth ih =>
      rw [ChainReader.ancestor?_succ] at hpresent
      cases hparent : chain.blockByHash? b.prevHash with
      | none => exact absurd (by rw [hparent, Option.bind_none]) hpresent
      | some parent =>
          rw [hparent, Option.bind_some] at hpresent
          have hheight := hdescends.height_parent hparent
          obtain ⟨steps, rfl⟩ := Nat.exists_eq_succ_of_ne_zero (n := steps) (by omega)
          obtain ⟨blocks, hwalk, hlength, hblocks⟩ :=
            ih (hdescends.parent hparent) (by omega) hpresent (b :: above) steps (by omega)
          refine ⟨blocks ++ [b], ?_, by rw [List.length_append, hlength]; rfl, ?_⟩
          · rw [ancestryDownTo, if_neg (by omega), hparent]
            dsimp only
            rw [hwalk, List.append_assoc, List.singleton_append]
          · intro i hi
            rcases Nat.lt_or_eq_of_le hi with hlt | rfl
            · rw [List.getElem?_append_left (by omega), hblocks i (by omega),
                ← ChainReader.ancestor?_of_parent hparent]
              congr 1
              omega
            · rw [List.getElem?_append_right (by omega), hlength, Nat.sub_self]
              rfl

end Walk

/-- The entropy has no answer exactly if the top is high enough to have any, and goes on having
ancestors, none of which is lower by the lag. -/
theorem pulseEntropy?_eq_none_iff {chain : ChainReader} {suite : CryptoSuite} {top : Hash}
    {round : Nat} : pulseEntropy? chain suite top round = none ↔
      ∃ b, chain.blockByHash? top = some b ∧ entropyLag ≤ b.height ∧
        chain.ancestor? b ancestryLimit ≠ none ∧
        ∀ n < ancestryLimit, ∀ a, chain.ancestor? b n = some a →
          b.height - entropyLag < a.height := by
  unfold pulseEntropy?
  cases htop : chain.blockByHash? top with
  | none => exact iff_of_false nofun nofun
  | some b =>
      dsimp only
      simp only [Option.some.injEq, exists_eq_left']
      split
      · rename_i hshort
        exact iff_of_false nofun fun h => Nat.not_le_of_lt hshort h.1
      · rename_i hlong
        rw [and_iff_right (Nat.le_of_not_lt hlong), ← ancestryDownTo_eq_endless_iff _ []]
        split <;> simp_all

/-- On top of a block that is its own parent the entropy has no answer. -/
theorem pulseEntropy?_eq_none_of_loop {chain : ChainReader} {top : Hash} {b : Block}
    (htop : chain.blockByHash? top = some b) (hloop : b.prevHash = top)
    (hlong : entropyLag ≤ b.height) (suite : CryptoSuite) (round : Nat) :
    pulseEntropy? chain suite top round = none := by
  have hself : ∀ n, chain.ancestor? b n = some b := by
    intro n
    induction n with
    | zero => rfl
    | succ n ih => rw [ChainReader.ancestor?, ih, Option.bind_some, hloop, htop]
  refine pulseEntropy?_eq_none_iff.2 ⟨b, htop, hlong, by rw [hself]; nofun, fun n _ a ha => ?_⟩
  obtain rfl : b = a := Option.some.inj ((hself n).symm.trans ha)
  have : 0 < entropyLag := by decide
  omega

/-! ## Readers that share the ancestors -/

/-- Two readers find the same blocks by the hashes of a family that is closed under parents. -/
structure ChainReader.SharesAncestry (reader reader' : ChainReader) (known : Hash → Prop) :
    Prop where
  same : ∀ hash, known hash → reader'.blockByHash? hash = reader.blockByHash? hash
  parent : ∀ hash b, known hash → reader.blockByHash? hash = some b → known b.prevHash

namespace ChainReader.SharesAncestry

variable {reader reader' : ChainReader} {known : Hash → Prop}

theorem ancestryDownTo_eq (h : reader.SharesAncestry reader' known) (floor steps : Nat)
    {b : Block} (hb : known b.prevHash) (above : List Block) :
    ancestryDownTo reader' floor steps b above = ancestryDownTo reader floor steps b above := by
  induction steps generalizing b above with
  | zero => rfl
  | succ steps ih =>
      unfold ancestryDownTo
      rw [h.same _ hb]
      split
      · rfl
      · cases hparent : reader.blockByHash? b.prevHash with
        | none => rfl
        | some parent => exact ih (h.parent _ _ hb hparent) _

theorem pulseEntropy?_eq (h : reader.SharesAncestry reader' known) (suite : CryptoSuite)
    {top : Hash} (htop : known top) (round : Nat) :
    pulseEntropy? reader' suite top round = pulseEntropy? reader suite top round := by
  unfold pulseEntropy?
  rw [h.same _ htop]
  cases hparent : reader.blockByHash? top with
  | none => rfl
  | some parent =>
      dsimp only
      rw [h.ancestryDownTo_eq _ _ (h.parent _ _ htop hparent)]

theorem pulseEntropy_eq (h : reader.SharesAncestry reader' known) (suite : CryptoSuite)
    {top : Hash} (htop : known top) (round : Nat) :
    pulseEntropy reader' suite top round = pulseEntropy reader suite top round :=
  congrArg (·.getD []) (h.pulseEntropy?_eq suite htop round)

end ChainReader.SharesAncestry

end StakeRegistry
