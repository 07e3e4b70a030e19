import StakeRegistry.Proofs.Quorum.Ancestry
import StakeRegistry.Proofs.Quorum.Forming

/-!
# The entropy of a Pulse quorum lags the tip

The entropy of the block after a top block comes from twelve of the top's ancestors: the one
twenty-one generations back, and those up to the one ten generations back. Where parents stand one
lower than their children these are the blocks at twelve heights in a row. Whoever adds the last
ten blocks has no say in it. Main statement:

* `pulseEntropy_of_descends`: the entropy, from the ancestors alone.
-/

set_option autoImplicit false

namespace StakeRegistry

/-! ## The entropy -/

theorem pulseQuorumSize_le_entropyLag : pulseQuorumSize ≤ entropyLag := by decide

section Entropy

variable {chain : ChainReader} {suite : CryptoSuite} {top : Hash} {b : Block}

theorem pulseEntropy_eq_nil (htop : chain.blockByHash? top = some b) (hdescends : chain.Descends b)
    (hmissing : chain.ancestor? b entropyLag = none) (round : Nat) :
    pulseEntropy chain suite top round = [] := by
  unfold pulseEntropy pulseEntropy?
  rw [htop]
  dsimp only
  split
  · rfl
  · rename_i hhigh
    have hdepth : b.height = b.height - entropyLag + entropyLag := by omega
    rw [ancestryDownTo_eq_missing hdescends hdepth hmissing (by decide)]
    rfl

/-- Of blocks in a row, those below a height are the first ones. -/
theorem filter_height_lt {blocks : List Block} {floor : Nat}
    (h : ∀ i a, blocks[i]? = some a → a.height = floor + i) (n : Nat) :
    blocks.filter (fun a => decide (a.height < floor + n)) = blocks.take n := by
  induction blocks generalizing floor n with
  | nil => rw [List.filter_nil, List.take_nil]
  | cons a rest ih =>
      have ha : a.height = floor := h 0 a rfl
      have hrest : ∀ i a, rest[i]? = some a → a.height = floor + 1 + i := fun i a ha => by
        have hheight := h (i + 1) a ha
        omega
      cases n with
      | zero =>
          refine List.filter_eq_nil_iff.2 fun c hc => ?_
          obtain ⟨i, hi⟩ := List.getElem?_of_mem hc
          have hheight := h i c hi
          simpa using hheight ▸ Nat.le_add_right floor i
      | succ n =>
          rw [List.filter_cons_of_pos (by simp [ha]), List.take_succ_cons, ← ih hrest n]
          simp only [Nat.add_assoc, Nat.add_comm 1]

/-- With all ancestors present, the entropy is that of the twelve furthest back, in the order of
their heights. -/
theorem pulseEntropy_of_present (htop : chain.blockByHash? top = some b)
    (hdescends : chain.Descends b) (hpresent : chain.ancestor? b entropyLag ≠ none)
    (suite : CryptoSuite) (round : Nat) :
    (pulseEntropy chain suite top round).length = pulseQuorumSize ∧
      ∀ i < pulseQuorumSize, (pulseEntropy chain suite top round)[i]? =
        (chain.ancestor? b (entropyLag - i)).map (entropyOf suite round) := by
  obtain ⟨last, hlast⟩ := Option.ne_none_iff_exists'.1 hpresent
  have hheight := hdescends.height_ancestor hlast
  have hdepth : b.height = b.height - entropyLag + entropyLag := by omega
  have hlimit : entropyLag < ancestryLimit := by decide
  obtain ⟨blocks, hwalk, hlength, hblocks⟩ :=
    ancestryDownTo_eq_reached hdescends hdepth hpresent hlimit []
  rw [List.append_nil] at hwalk
  have hheights : ∀ i a, blocks[i]? = some a → a.height = b.height - entropyLag + i := by
    intro i a ha
    have hi := (List.getElem?_eq_some_iff.1 ha).1
    rw [hblocks i (by omega)] at ha
    have hback := hdescends.height_ancestor ha
    omega
  have hsources : (blocks.take pulseQuorumSize).length = pulseQuorumSize := by
    rw [List.length_take, hlength]
    rfl
  have hentropy : pulseEntropy chain suite top round =
      (blocks.take pulseQuorumSize).map (entropyOf suite round) := by
    unfold pulseEntropy pulseEntropy?
    rw [htop]
    dsimp only
    rw [if_neg (by omega), hwalk]
    dsimp only [Option.getD_some]
    rw [filter_height_lt hheights, if_pos hsources]
  rw [hentropy]
  refine ⟨by rw [List.length_map, hsources], fun i hi => ?_⟩
  rw [List.getElem?_map, List.getElem?_take_of_lt hi, hblocks i]
  have hle := pulseQuorumSize_le_entropyLag
  omega

/-- Tops with the same blocks at the twelve generations give the same entropy. -/
theorem pulseEntropy_eq_of_ancestors {chain' : ChainReader} {top' : Hash} {b' : Block}
    (htop : chain.blockByHash? top = some b) (htop' : chain'.blockByHash? top' = some b')
    (hdescends : chain.Descends b) (hdescends' : chain'.Descends b')
    (hsame : ∀ n, entropyLag - pulseQuorumSize < n → n ≤ entropyLag →
      chain'.ancestor? b' n = chain.ancestor? b n) (suite : CryptoSuite) (round : Nat) :
    pulseEntropy chain' suite top' round = pulseEntropy chain suite top round := by
  have hlast := hsame entropyLag (by decide) (Nat.le_refl _)
  by_cases hmissing : chain.ancestor? b entropyLag = none
  · rw [pulseEntropy_eq_nil htop hdescends hmissing,
      pulseEntropy_eq_nil htop' hdescends' (hlast.trans hmissing)]
  · obtain ⟨hlength, hentropy⟩ := pulseEntropy_of_present htop hdescends hmissing suite round
    obtain ⟨hlength', hentropy'⟩ :=
      pulseEntropy_of_present htop' hdescends' (hlast ▸ hmissing) suite round
    refine List.ext_getElem? fun i => ?_
    rcases Nat.lt_or_ge i pulseQuorumSize with hi | hi
    · have hle := pulseQuorumSize_le_entropyLag
      rw [hentropy i hi, hentropy' i hi, hsame (entropyLag - i) (by omega) (Nat.sub_le _ _)]
    · rw [List.getElem?_eq_none (hlength'.symm ▸ hi), List.getElem?_eq_none (hlength.symm ▸ hi)]

/-- **The entropy lags the tip**: on a chain on which parents stand one lower than their children,
the entropy after a top block is empty when the top is lower than the lag or an ancestor within the
lag is missing. Otherwise it has twelve entries, one for each height from the one that lags on: the
hash of the round and of what the ancestor at that height brings, its producer's random value if
it has Pulse data, else its own hash. So tops that share these ancestors, whatever the last ten
blocks of either chain are, have the same entropy. -/
theorem pulseEntropy_of_descends (suite : CryptoSuite) (round : Nat)
    (htop : chain.blockByHash? top = some b) (hdescends : chain.Descends b) :
    (b.height < entropyLag ∨ (∃ n ≤ entropyLag, chain.ancestor? b n = none) →
      pulseEntropy chain suite top round = []) ∧
    (entropyLag ≤ b.height → (∀ n ≤ entropyLag, chain.ancestor? b n ≠ none) →
      (pulseEntropy chain suite top round).length = pulseQuorumSize ∧
        ∀ i < pulseQuorumSize, ∃ a, chain.ancestor? b (entropyLag - i) = some a ∧
          a.height = b.height - entropyLag + i ∧
          (pulseEntropy chain suite top round)[i]? = some (suite.hash (UInt8.ofNat round ::
            if HardFork.pulse ≤ a.fork ∧ a.hasPulseComponents = true then a.pulse.random.toList
            else a.hash.toList))) ∧
    ∀ (chain' : ChainReader) (top' : Hash) (b' : Block), chain'.blockByHash? top' = some b' →
      chain'.Descends b' →
      (∀ n, entropyLag - pulseQuorumSize < n → n ≤ entropyLag →
        chain'.ancestor? b' n = chain.ancestor? b n) →
      pulseEntropy chain' suite top' round = pulseEntropy chain suite top round := by
  refine ⟨fun hshort => ?_, fun hhigh hpresent => ?_, fun chain' top' b' htop' hdescends' hsame =>
    pulseEntropy_eq_of_ancestors htop htop' hdescends hdescends' hsame suite round⟩
  · refine pulseEntropy_eq_nil htop hdescends ?_ round
    rcases hshort with hlow | ⟨n, hn, hmissing⟩
    · refine Option.eq_none_iff_forall_ne_some.2 fun a ha => ?_
      have hheight := hdescends.height_ancestor ha
      omega
    · exact ChainReader.ancestor?_eq_none_of_le hn hmissing
  · obtain ⟨hlength, hentropy⟩ :=
      pulseEntropy_of_present htop hdescends (hpresent _ (Nat.le_refl _)) suite round
    refine ⟨hlength, fun i hi => ?_⟩
    obtain ⟨a, ha⟩ := Option.ne_none_iff_exists'.1 (hpresent (entropyLag - i) (Nat.sub_le _ _))
    have hheight := hdescends.height_ancestor ha
    have hle := pulseQuorumSize_le_entropyLag
    refine ⟨a, ha, by omega, ?_⟩
    rw [hentropy i hi, ha, Option.map_some, entropyOf]
    simp only [Bool.and_eq_true, decide_eq_true_eq]

end Entropy

/-! ## Two chains that part -/

/-- A plain block with Pulse data. -/
def Block.carrying (height : Nat) (pulse : PulseHeader) : Block :=
  { Block.plain height .v21 with pulse := pulse }

/-- A chain of such blocks from height one on, each found by the number that its hash writes. -/
def ChainReader.carrying (pulseAt : Nat → PulseHeader) : ChainReader where
  currentHeight := 0
  blockAt? _ := none
  blockByHash? hash :=
    let height := leNat hash.toList
    if 0 < height then some (.carrying height (pulseAt height)) else none
  transaction? _ := none

theorem ChainReader.height_carrying {pulseAt : Nat → PulseHeader} {hash : Hash} {b : Block}
    (h : (carrying pulseAt).blockByHash? hash = some b) :
    0 < b.height ∧ b.height = leNat hash.toList ∧ b.prevHash = .writing (b.height - 1) := by
  obtain ⟨hpositive, hblock⟩ := Option.ite_none_right_eq_some.1 h
  cases hblock
  exact ⟨hpositive, rfl, rfl⟩

theorem ChainReader.descends_carrying {pulseAt : Nat → PulseHeader} {hash : Hash} {b : Block}
    (h : (carrying pulseAt).blockByHash? hash = some b) : (carrying pulseAt).Descends b := by
  intro n a ha p hp
  -- Every ancestor is found by some hash, as the block itself is.
  obtain ⟨known, hknown⟩ : ∃ known, (carrying pulseAt).blockByHash? known = some a := by
    cases n with
    | zero => exact ⟨hash, by rw [h, ← ha, ancestor?]⟩
    | succ n =>
        obtain ⟨child, -, hparent⟩ := Option.bind_eq_some_iff.1 ha
        exact ⟨child.prevHash, hparent⟩
  obtain ⟨hpositive, hheight, hprev⟩ := height_carrying hknown
  obtain ⟨-, hparent, -⟩ := height_carrying hp
  have hlt := leNat_lt known.toList
  rw [known.2, ← hheight] at hlt
  have hread : leNat (Bytes.toList (.writing (a.height - 1) : Hash)) = a.height - 1 :=
    leNat_leBytes _ _ (Nat.lt_of_le_of_lt (Nat.sub_le _ _) hlt)
  rw [hprev, hread] at hparent
  omega

/-- A hash that writes the number that it hashes. -/
def CryptoSuite.writing : CryptoSuite :=
  { CryptoSuite.trusting with hash := fun data => .writing (leNat data) }

/-- A chain without Pulse data. -/
def ChainReader.mined : ChainReader := .carrying fun _ => ⟨0, 0, .writing 0⟩

/-- The same chain up to block twenty, with Pulse blocks on top. -/
def ChainReader.pulsing : ChainReader :=
  .carrying fun height => if height ≤ 20 then ⟨0, 0, .writing 0⟩ else ⟨2, 1, .writing height⟩

/-- The two chains have different blocks from twenty-one on, and the same entropy on top of block
thirty, which ends with the hash of block twenty. On top of block twenty there is none. -/
theorem pulseEntropy_pulsing :
    ChainReader.pulsing.blockByHash? (.writing 21) ≠ ChainReader.mined.blockByHash? (.writing 21) ∧
      (pulseEntropy .mined .writing (.writing 30) 3)[11]? = some (.writing (3 + 256 * 20)) ∧
      pulseEntropy .pulsing .writing (.writing 30) 3 =
        pulseEntropy .mined .writing (.writing 30) 3 ∧
      pulseEntropy .mined .writing (.writing 20) 3 = [] := by
  have htop : ChainReader.mined.blockByHash? (.writing 30) =
      some (.carrying 30 ⟨0, 0, .writing 0⟩) := by decide +kernel
  have htop' : ChainReader.pulsing.blockByHash? (.writing 30) =
      some (.carrying 30 ⟨2, 1, .writing 30⟩) := by decide +kernel
  have hlow : ChainReader.mined.blockByHash? (.writing 20) =
      some (.carrying 20 ⟨0, 0, .writing 0⟩) := by decide +kernel
  obtain ⟨-, hpresent, hshared⟩ :=
    pulseEntropy_of_descends .writing 3 htop (ChainReader.descends_carrying htop)
  obtain ⟨-, hentropy⟩ := hpresent (by decide) (by decide +kernel)
  obtain ⟨a, ha, -, hlast⟩ := hentropy 11 (by decide)
  have hnewest : ChainReader.mined.ancestor? (.carrying 30 ⟨0, 0, .writing 0⟩) 10 =
      some (.carrying 20 ⟨0, 0, .writing 0⟩) := by decide +kernel
  cases ha.symm.trans hnewest
  have hagree : ∀ n ≤ 21, 9 < n →
      ChainReader.pulsing.ancestor? (.carrying 30 ⟨2, 1, .writing 30⟩) n =
        ChainReader.mined.ancestor? (.carrying 30 ⟨0, 0, .writing 0⟩) n := by
    decide +kernel
  exact ⟨by decide +kernel, hlast.trans (by decide +kernel),
    hshared _ _ _ htop' (ChainReader.descends_carrying htop') fun n hn hle => hagree n hle hn,
    (pulseEntropy_of_descends _ 3 hlow (ChainReader.descends_carrying hlow)).1 (.inl (by decide))⟩

end StakeRegistry
