import StakeRegistry.Proofs.Transition.BlsKeys
import StakeRegistry.Proofs.Transition.Sequence

/-!
# Nodes by their BLS keys

The bridge names a registered node by its BLS key, and finds the first one in the order of node
keys that carries it. That is the node meant as long as no other one has the key. A registration
through the bridge does not look whether one has: it is the only transaction after which two nodes
can share a BLS key, and they do exactly if another node had that key already
(`AppliedTx.Doubles`). Main statements:

* `Registry.findByBlsKey?_eq_some_iff`: which node is found, shared keys or not;
* `AppliedTx.blsUnique_after`: a transaction that doubles no key leaves BLS keys unique;
* `Registry.Row.bls_keys_identify`: over every run, BLS keys identify nodes exactly if no
  registration doubles one.
-/

set_option autoImplicit false

namespace StakeRegistry

namespace Registry

/-- No two registered nodes have one BLS key; the key zero stands for none. -/
def BlsUnique (r : Registry) : Prop :=
  ∀ (key key' : PublicKey) (info info' : NodeInfo), r.info? key = some info →
    r.info? key' = some info' → info.blsKey ≠ 0 → info'.blsKey = info.blsKey → key' = key

variable {r r' : Registry} {key : PublicKey} {blsKey : BlsKey}

theorem blsUnique_new (height : Nat) : (new height).BlsUnique := by
  intro key key' info info' hinfo
  cases hinfo

theorem BlsUnique.of_keepsEntries (h : r.BlsUnique)
    (hkeeps : r.KeepsEntries NodeInfo.SameTerms r') : r'.BlsUnique := by
  intro key key' info info' hinfo hinfo' hnonzero hsame
  obtain ⟨old, hold, hterms⟩ := hkeeps key info hinfo
  obtain ⟨old', hold', hterms'⟩ := hkeeps key' info' hinfo'
  rw [hterms.blsKey] at hnonzero hsame
  rw [hterms'.blsKey] at hsame
  exact h _ _ old old' hold hold' hnonzero hsame

theorem BlsUnique.of_retains (h : r.BlsUnique) (hkept : r.Retains r') : r'.BlsUnique := by
  refine h.of_keepsEntries fun key info' hinfo' => ?_
  obtain ⟨info, hinfo, hsame⟩ := hkept key info' hinfo'
  exact ⟨info, hinfo, hsame.toSameTerms⟩

/-- The node that is found by a BLS key has that key, and comes first among those that have. -/
theorem first_of_findByBlsKey? (h : r.findByBlsKey? blsKey = some key) {other : PublicKey}
    {info : NodeInfo} (hinfo : r.info? other = some info) (hblsKey : info.blsKey = blsKey) :
    (compare key other).isLE = true := by
  obtain ⟨node, hfound, rfl⟩ := Option.map_eq_some_iff.1 h
  obtain ⟨-, earlier, later, hnodes, hearlier⟩ := List.find?_eq_some_iff_append.1 hfound
  have hmem : (other, info) ∈ r.nodes.toList := SortedMap.get?_eq_some_iff.1 hinfo
  have hascending := r.nodes.ascending
  rw [hnodes] at hmem hascending
  rcases List.mem_append.1 hmem with hmem | hmem
  · have hskipped := hearlier _ hmem
    simp [hblsKey] at hskipped
  · rcases List.mem_cons.1 hmem with rfl | hmem
    · simp
    · have hrest := (List.pairwise_append.1 hascending).2.1
      have hlater : compare node.1 other = .lt := (List.pairwise_cons.1 hrest).1 _ hmem
      rw [hlater]
      rfl

/-- Whom a BLS key finds: the first registered node in the order of keys that has it. -/
theorem findByBlsKey?_eq_some_iff : r.findByBlsKey? blsKey = some key ↔
    (∃ info, r.info? key = some info ∧ info.blsKey = blsKey) ∧
      ∀ other info, r.info? other = some info → info.blsKey = blsKey →
        (compare key other).isLE = true := by
  constructor
  · intro h
    exact ⟨blsKey_of_findByBlsKey? h, fun other info hinfo hsame =>
      first_of_findByBlsKey? h hinfo hsame⟩
  · rintro ⟨⟨info, hinfo, hsame⟩, hfirst⟩
    have hmem : (key, info) ∈ r.nodes.toList := SortedMap.get?_eq_some_iff.1 hinfo
    have hsome : (r.nodes.toList.find? fun n => n.2.blsKey == blsKey).isSome = true :=
      List.find?_isSome.2 ⟨_, hmem, by simpa using hsame⟩
    obtain ⟨node, hnode⟩ := Option.isSome_iff_exists.1 hsome
    have hfound : r.findByBlsKey? blsKey = some node.1 := by
      unfold findByBlsKey?
      rw [hnode, Option.map_some]
    -- Each of the two comes first, so they are one.
    obtain ⟨old, hold, hblsKey⟩ := blsKey_of_findByBlsKey? hfound
    have hle := hfirst node.1 old hold hblsKey
    have hge := first_of_findByBlsKey? hfound hinfo hsame
    rw [Std.OrientedOrd.eq_swap, Ordering.isLE_swap] at hge
    have heq : compare key node.1 = .eq := by
      cases hcompare : compare key node.1 with
      | eq => rfl
      | lt =>
          rw [hcompare] at hge
          cases hge
      | gt =>
          rw [hcompare] at hle
          cases hle
    rw [hfound, Std.LawfulEqOrd.eq_of_compare heq]

/-- Where BLS keys are unique, whoever has one is found by it. -/
theorem BlsUnique.findByBlsKey?_eq_some_iff (h : r.BlsUnique) (hnonzero : blsKey ≠ 0) :
    r.findByBlsKey? blsKey = some key ↔ ∃ info, r.info? key = some info ∧ info.blsKey = blsKey := by
  constructor
  · exact blsKey_of_findByBlsKey?
  · rintro ⟨info, hinfo, rfl⟩
    refine Registry.findByBlsKey?_eq_some_iff.2 ⟨⟨info, hinfo, rfl⟩, fun other old hold hsame => ?_⟩
    rw [h _ _ info old hinfo hold hnonzero hsame]
    simp

end Registry

/-! ## One transaction -/

namespace AppliedTx

/-- The transaction registered a node through the bridge with the BLS key of another registered
node. -/
def Doubles (s : AppliedTx) : Prop :=
  ∃ key info other old, s.Bridges key info ∧ info.blsKey ≠ 0 ∧ other ≠ key ∧
    s.before.registry.info? other = some old ∧ old.blsKey = info.blsKey

/-- Whether it did: the BLS key is compared with those of all registered nodes. -/
def doubles (s : AppliedTx) : Bool :=
  decide (s.tx.kind = .bridgeRegistration) &&
    (bridgedNode s.ctx.suite s.ctx.rules (s.block.place s.index) s.tx).toOption.any fun new =>
      new.2.hasBlsKey && s.before.registry.nodes.toList.any fun old =>
        decide (old.1 ≠ new.1) && decide (old.2.blsKey = new.2.blsKey)

variable {s : AppliedTx} {key : PublicKey} {info' : NodeInfo}

theorem doubles_iff : s.doubles = true ↔ s.Doubles := by
  unfold doubles Doubles
  rw [Bool.and_eq_true, decide_eq_true_iff, Option.any_eq_true]
  constructor
  · rintro ⟨hkind, ⟨key, info⟩, hnode, hshared⟩
    obtain ⟨hblsKey, hshared⟩ := Bool.and_eq_true_iff.1 hshared
    obtain ⟨⟨other, old⟩, hmem, hold⟩ := List.any_eq_true.1 hshared
    obtain ⟨hne, hsame⟩ := Bool.and_eq_true_iff.1 hold
    have hnonzero : info.blsKey ≠ 0 := by simpa [NodeInfo.hasBlsKey] using hblsKey
    exact ⟨key, info, other, old, ⟨hkind, eq_ok_of_toOption hnode⟩, hnonzero, of_decide_eq_true hne,
      SortedMap.get?_eq_some_iff.2 hmem, of_decide_eq_true hsame⟩
  · rintro ⟨key, info, other, old, hcomes, hblsKey, hne, hold, hsame⟩
    refine ⟨hcomes.kind, (key, info), by rw [hcomes.registers]; rfl, ?_⟩
    have hhas : info.hasBlsKey = true := by simpa [NodeInfo.hasBlsKey] using hblsKey
    refine Bool.and_eq_true_iff.2 ⟨hhas, List.any_eq_true.2 ?_⟩
    exact ⟨(other, old), SortedMap.get?_eq_some_iff.1 hold, by simp [hne, hsame]⟩

instance : Decidable s.Doubles := decidable_of_iff _ doubles_iff

/-- Whoever has a BLS key after a transaction had it before, or came with it just now. -/
theorem blsKey_after (hinfo' : s.after.registry.info? key = some info')
    (hnonzero : info'.blsKey ≠ 0) :
    (∃ info, s.before.registry.info? key = some info ∧ info'.blsKey = info.blsKey) ∨
      s.Bridges key info' := by
  by_cases hold : ∀ origin, s.created? ≠ some (key, origin)
  · exact .inl (Draft.blsKey_of_applyTransaction hold hinfo')
  · obtain ⟨origin, hcreated⟩ := not_forall_not.1 hold
    cases origin with
    | ordinary =>
        obtain ⟨info, entry, hnode, hsame, hfound⟩ := Draft.registered_of_created? hcreated
        have hzero : entry.blsKey = 0 := by
          rw [hsame.blsKey, (NodeInfo.terms_of_registeredNode hnode).2.2.2]
        obtain rfl : entry = info' := Option.some.inj (hfound.symm.trans hinfo')
        exact absurd hzero hnonzero
    | bridge =>
        obtain ⟨hkind, info, hnode, hfound⟩ := Draft.bridged_of_created? hcreated
        cases hfound.symm.trans hinfo'
        exact .inr ⟨hkind, hnode⟩

/-- A transaction that doubles no BLS key leaves BLS keys unique. -/
theorem blsUnique_after (h : s.before.registry.BlsUnique) (hs : ¬ s.Doubles) :
    s.after.registry.BlsUnique := by
  intro key key' info info' hinfo hinfo' hnonzero hsame
  have hnonzero' : info'.blsKey ≠ 0 := by
    rw [hsame]
    exact hnonzero
  by_contra hne
  rcases blsKey_after hinfo hnonzero with ⟨old, hold, hkept⟩ | hcomes
  · rcases blsKey_after hinfo' hnonzero' with ⟨old', hold', hkept'⟩ | hcomes'
    · rw [hkept] at hnonzero hsame
      exact hne (h _ _ old old' hold hold' hnonzero (hkept'.symm.trans hsame))
    · exact hs ⟨key', info', key, old, hcomes', hnonzero', Ne.symm hne, hold,
        hkept.symm.trans hsame.symm⟩
  · rcases blsKey_after hinfo' hnonzero' with ⟨old', hold', hkept'⟩ | hcomes'
    · exact hs ⟨key, info, key', old', hcomes, hnonzero, hne, hold', hkept'.symm.trans hsame⟩
    · -- One transaction registers one node.
      cases hcomes.registers.symm.trans hcomes'.registers
      exact hne rfl

/-- One that doubles a BLS key leaves two nodes with it. -/
theorem not_blsUnique_after (hs : s.Doubles) : ¬ s.after.registry.BlsUnique := by
  obtain ⟨key, info, other, old, hcomes, hnonzero, hne, hold, hsame⟩ := hs
  intro hunique
  have hinfo : s.after.registry.info? key = some info := by
    rw [hcomes.info?_after, if_pos rfl]
  have hother : s.after.registry.info? other = some old := by
    rw [hcomes.info?_after, if_neg hne, hold]
  exact hne (hunique _ _ info old hinfo hother hnonzero hsame)

end AppliedTx

/-! ## Every run -/

namespace Registry

variable {row : List Applied}

/-- In a run without doubled BLS keys they are unique all along. -/
theorem Row.blsUnique {r : Registry} (h : Row r row) (hr : r.BlsUnique)
    (hrow : ∀ s ∈ row.flatMap Applied.steps, ¬ s.Doubles) :
    (∀ a ∈ row, a.after.BlsUnique) ∧ ∀ s ∈ row.flatMap Applied.steps,
      s.before.registry.BlsUnique ∧ s.after.registry.BlsUnique := by
  induction h with
  | nil r => simp
  | @cons a row outcome applied rest ih =>
      rw [List.flatMap_cons] at hrow ⊢
      have hfirst : ∀ s ∈ a.steps, ¬ s.Doubles := fun s hs =>
        hrow s (List.mem_append_left _ hs)
      have hlater : ∀ s ∈ row.flatMap Applied.steps, ¬ s.Doubles := fun s hs =>
        hrow s (List.mem_append_right _ hs)
      obtain ⟨hafter, hblock⟩ := (passes_of_apply applied).induction hr
        (fun h hkept => h.of_retains hkept)
        fun s hs hunique => AppliedTx.blsUnique_after hunique (hfirst s hs)
      obtain ⟨hafters, hsteps⟩ := ih hafter hlater
      refine ⟨List.forall_mem_cons.2 ⟨hafter, hafters⟩, fun s hs => ?_⟩
      rcases List.mem_append.1 hs with hs | hs
      · exact hblock s hs
      · exact hsteps s hs

/-- Over every run from an empty registry: no two registered nodes ever have one BLS key, exactly
if no registration through the bridge brings the BLS key of another node that is registered then.
In such a run a request to leave, an exit or a forced removal that names a BLS key other than zero
addresses the one node that has it. In every run it addresses the node that comes first in the
order of node keys among those that have it. -/
theorem Row.bls_keys_identify {height : Nat} (h : Row (new height) row) :
    ((∀ s ∈ row.flatMap Applied.steps, s.after.registry.BlsUnique) ↔
      ∀ s ∈ row.flatMap Applied.steps, ¬ s.Doubles) ∧
    ((∀ s ∈ row.flatMap Applied.steps, ¬ s.Doubles) →
      (∀ a ∈ row, a.after.BlsUnique) ∧
      ∀ s ∈ row.flatMap Applied.steps, ∀ blsKey, s.tx.namedBlsKey? = some blsKey → blsKey ≠ 0 →
        ∀ key, s.before.named? s.tx = some key ↔
          ∃ info, s.before.registry.info? key = some info ∧ info.blsKey = blsKey) ∧
    ∀ s ∈ row.flatMap Applied.steps, ∀ blsKey, s.tx.namedBlsKey? = some blsKey →
      ∀ key, s.before.named? s.tx = some key ↔
        (∃ info, s.before.registry.info? key = some info ∧ info.blsKey = blsKey) ∧
          ∀ other info, s.before.registry.info? other = some info → info.blsKey = blsKey →
            (compare key other).isLE = true := by
  have hempty : (new height).BlsUnique := blsUnique_new height
  refine ⟨⟨fun hunique s hs hdoubles => ?_, fun hrow s hs => ?_⟩, fun hrow => ⟨?_, ?_⟩, ?_⟩
  · exact AppliedTx.not_blsUnique_after hdoubles (hunique s hs)
  · exact ((h.blsUnique hempty hrow).2 s hs).2
  · exact (h.blsUnique hempty hrow).1
  · intro s hs blsKey hnames hnonzero key
    have hunique := ((h.blsUnique hempty hrow).2 s hs).1
    unfold Draft.named?
    rw [hnames, Option.bind_some]
    exact hunique.findByBlsKey?_eq_some_iff hnonzero
  · intro s hs blsKey hnames key
    unfold Draft.named?
    rw [hnames, Option.bind_some]
    exact findByBlsKey?_eq_some_iff

end Registry

/-- The registration of a node through the bridge with some BLS key. -/
def Transaction.registeringAs (number blsKey : Nat) : Transaction :=
  { (default : Transaction) with
    kind := .bridgeRegistration
    extra := [.bridgeRegistration ⟨.writing blsKey, .writing number, .writing number, 0, 0,
      [⟨.writing number, 100 * coin⟩]⟩] }

namespace Registry

/-- Two nodes register with keys of their own, and one of them is removed. -/
def distinctSteps : List AppliedTx :=
  plainSteps (new 1) [(.v21, [.registeringAs 1 5, .registeringAs 2 6]),
    (.v21, [.expelling (.writing 6)])]

/-- Two nodes register with one key, and one of them is removed. -/
def sharedSteps : List AppliedTx :=
  plainSteps (new 1) [(.v21, [.registeringAs 2 5, .registeringAs 1 5]),
    (.v21, [.expelling (.writing 5)])]

/-- With keys of their own the node that is meant is removed. Where two nodes share a key, the one
that is removed is the one that registered later. -/
theorem bls_keys_identify_distinct :
    (∃ row, Row (new 1) row ∧ row.flatMap Applied.steps = distinctSteps ∧
      (∀ s ∈ distinctSteps, ¬ s.Doubles) ∧ (∀ s ∈ distinctSteps, s.after.registry.BlsUnique) ∧
      ∃ s ∈ distinctSteps, s.before.named? s.tx = some (.writing 2)) ∧
    ∃ row, Row (new 1) row ∧ row.flatMap Applied.steps = sharedSteps ∧
      (¬ ∀ s ∈ sharedSteps, s.after.registry.BlsUnique) ∧
      ∃ s ∈ sharedSteps, s.before.named? s.tx = some (.writing 1) := by
  obtain ⟨row, hrow, hsteps⟩ := (SameButQuorums.refl (new 1)).exists_row
    [(.v21, [.registeringAs 1 5, .registeringAs 2 6]), (.v21, [.expelling (.writing 6)])]
  obtain ⟨row', hrow', hsteps'⟩ := (SameButQuorums.refl (new 1)).exists_row
    [(.v21, [.registeringAs 2 5, .registeringAs 1 5]), (.v21, [.expelling (.writing 5)])]
  have hnone : ∀ s ∈ distinctSteps, ¬ s.Doubles := by decide +kernel
  have hsome : ¬ ∀ s ∈ sharedSteps, ¬ s.Doubles := by decide +kernel
  have hunique := hrow.bls_keys_identify.1
  have hshared := hrow'.bls_keys_identify.1
  rw [hsteps] at hunique
  rw [hsteps'] at hshared
  exact ⟨⟨row, hrow, hsteps, hnone, hunique.2 hnone, by decide +kernel⟩,
    row', hrow', hsteps', fun h => hsome (hshared.1 h), by decide +kernel⟩

end Registry

end StakeRegistry
