import StakeRegistry.Proofs.Transition.Terms

/-!
# Whom the bridge reaches

Requests to leave, exits and forced removals that come through the bridge name a node by its BLS
key. An ordinary registration gives none, and its entry keeps the key zero for good. So these
transactions reach no such entry as long as they name another key than zero; with zero they reach
whichever entry without a key comes first. Main statements:

* `Traced.keyed`: what every run keeps of the BLS keys of entries and of how they came about;
* `Traced.ordinary_out_of_reach`: entries of ordinary registrations are out of reach of every
  other key than zero, and before the bridge there is nothing else.
-/

set_option autoImplicit false

namespace StakeRegistry

/-! ## BLS keys and origins -/

/-- What may be said of a BLS key by how its entry came about. -/
structure BlsKeyLaw (ctx : Context) (block : Block) (P : Origin → BlsKey → Prop) : Prop where
  ordinary : P .ordinary 0
  bridged : ∀ {index : Nat} {tx : Transaction} {key : PublicKey} {info : NodeInfo},
    bridgedNode ctx.suite ctx.rules (block.place index) tx = .ok (key, info) →
      P .bridge info.blsKey

/-- Only entries that came through the bridge have a BLS key. -/
theorem blsKeyLaw_ordinary (ctx : Context) (block : Block) :
    BlsKeyLaw ctx block fun origin blsKey => origin = .ordinary → blsKey = 0 where
  ordinary _ := rfl
  bridged _ h := by cases h

/-- Before the bridge no entry has a BLS key. -/
theorem blsKeyLaw_early (ctx : Context) {block : Block} (hfork : block.fork < HardFork.bridge) :
    BlsKeyLaw ctx block fun _ blsKey => blsKey = 0 where
  ordinary := rfl
  bridged h := absurd (bridge_le_of_bridgedNode h) (Nat.not_le_of_lt hfork)

namespace NodeInfo

theorem blsKey_leavingAt (info : NodeInfo) (rules : NetworkRules) (height : Nat) :
    (info.leavingAt rules height).blsKey = info.blsKey := by
  unfold leavingAt
  split <;> rfl

end NodeInfo

/-- The BLS key of every entry is as its origin says. -/
def Registry.Keyed (r : Registry) (P : Origin → BlsKey → Prop) (origins : Origins) : Prop :=
  r.Keeps (fun origin info => P origin info.blsKey) origins

section Keys

variable {ctx : Context} {block : Block} {P : Origin → BlsKey → Prop} {origins : Origins}

theorem Registry.Keyed.of_keepsEntries {r r' : Registry} (h : r.Keyed P origins)
    (hkeeps : r.KeepsEntries NodeInfo.SameTerms r') : r'.Keyed P origins := by
  intro key info' hinfo'
  obtain ⟨info, hinfo, hsame⟩ := hkeeps key info' hinfo'
  show P (origins key) info'.blsKey
  rw [hsame.blsKey]
  exact h key info hinfo

/-- An entry that a transaction does not create has its BLS key from before. -/
theorem Draft.blsKey_of_applyTransaction {d : Draft} {index : Nat} {tx : Transaction}
    {key : PublicKey} {info' : NodeInfo}
    (hold : ∀ origin, d.created? ctx block index tx ≠ some (key, origin))
    (hinfo' : (d.applyTransaction ctx block tx index).registry.info? key = some info') :
    ∃ info, d.registry.info? key = some info ∧ info'.blsKey = info.blsKey := by
  obtain ⟨info, hinfo, hsame | ⟨request, -, rfl⟩ | ⟨-, rfl⟩⟩ :=
    terms_of_applyTransaction hold hinfo'
  · exact ⟨info, hinfo, hsame.blsKey⟩
  · exact ⟨info, hinfo, rfl⟩
  · exact ⟨info, hinfo, info.blsKey_leavingAt _ _⟩

theorem Draft.keyed_applyTransaction {d : Draft} (law : BlsKeyLaw ctx block P)
    (h : d.registry.Keyed P origins) (tx : Transaction) (index : Nat) :
    (d.applyTransaction ctx block tx index).registry.Keyed P
      (origins.record (d.created? ctx block index tx)) := by
  intro key info' hinfo'
  have hkept : (∀ origin, d.created? ctx block index tx ≠ some (key, origin)) →
      P (origins key) info'.blsKey := by
    intro hold
    obtain ⟨info, hinfo, hsame⟩ := blsKey_of_applyTransaction hold hinfo'
    rw [hsame]
    exact h key info hinfo
  cases hcreated : d.created? ctx block index tx with
  | none => exact hkept (by simp [hcreated])
  | some entry =>
      obtain ⟨node, origin⟩ := entry
      show P (if key = node then origin else origins key) info'.blsKey
      split
      · rename_i hkey
        subst hkey
        cases origin with
        | ordinary =>
            obtain ⟨info, entry, hnode, hsame, hfound⟩ := registered_of_created? hcreated
            cases hfound.symm.trans hinfo'
            rw [hsame.blsKey, (NodeInfo.terms_of_registeredNode hnode).2.2.2]
            exact law.ordinary
        | bridge =>
            obtain ⟨-, info, hnode, hfound⟩ := bridged_of_created? hcreated
            cases hfound.symm.trans hinfo'
            exact law.bridged hnode
      · rename_i hkey
        refine hkept fun origin' hsome => hkey ?_
        rw [hcreated] at hsome
        cases hsome
        rfl

namespace Registry

/-- What is kept stands in the draft of a block after each of its transactions. -/
theorem Keyed.draft {r : Registry} (law : BlsKeyLaw ctx block P) (h : r.Keyed P origins)
    (txs : List Transaction) :
    (r.draft ctx block txs).registry.Keyed P (r.originsAfter ctx block txs origins) :=
  Draft.originsAfter_induction (P := fun d origins => d.registry.Keyed P origins)
    (fun _ _ tx index h => Draft.keyed_applyTransaction law h tx index)
    (h.of_keepsEntries (r.keepsTerms_opened ctx block)) txs

theorem Keyed.apply {r next : Registry} {txs : List Transaction} {outcome : Outcome}
    (law : BlsKeyLaw ctx block P) (h : r.Keyed P origins)
    (happly : r.apply ctx block txs = .ok (next, outcome)) :
    next.Keyed P (r.originsAfter ctx block txs origins) :=
  (h.draft law txs).of_keepsEntries fun _ _ => (pairsTerms_of_apply happly).exists_before

end Registry

end Keys

/-! ## Whom a transaction names -/

/-- The BLS key by which a transaction of the bridge names a node that it does not register. -/
def Transaction.namedBlsKey? (tx : Transaction) : Option BlsKey :=
  match tx.kind with
  | .bridgeLeave => tx.bridgeLeave?
  | .bridgeExit => tx.bridgeExit?.map (·.blsKey)
  | .bridgeDeregister => tx.bridgeDeregister?
  | _ => none

/-- Whether a transaction is about a registered node of the bridge. -/
def TxKind.namesBlsKey : TxKind → Bool
  | .bridgeLeave | .bridgeExit | .bridgeDeregister => true
  | _ => false

namespace Draft

variable {ctx : Context} {block : Block} {index : Nat} {tx : Transaction} {d d' : Draft}
  {key : PublicKey}

/-- The second draft differs from the first in the entry of one node, and in stakes that are paid
back for it, at most. -/
structure DiffersAt (key : PublicKey) (d d' : Draft) : Prop where
  entries : ∀ other, other ≠ key → d'.registry.info? other = d.registry.info? other
  returned : ∃ new, d'.outcome.returned = d.outcome.returned ++ new ∧
    ∀ returned ∈ new, returned.nodeKey = key

theorem DiffersAt.refl (key : PublicKey) (d : Draft) : DiffersAt key d d :=
  ⟨fun _ _ => rfl, [], (List.append_nil _).symm, by simp⟩

/-- The registered node that a transaction of the bridge names. -/
def named? (d : Draft) (tx : Transaction) : Option PublicKey :=
  tx.namedBlsKey?.bind d.registry.findByBlsKey?

theorem applyTransaction_of_bridge (hkind : tx.kind.namesBlsKey = true) :
    d.applyTransaction ctx block tx index = d.leave ctx block tx ∧ tx.kind = .bridgeLeave ∨
    d.applyTransaction ctx block tx index = d.exit ctx block tx ∧ tx.kind = .bridgeExit ∨
    d.applyTransaction ctx block tx index = d.expel tx ∧ tx.kind = .bridgeDeregister := by
  have hstakes : tx.kind ≠ TxKind.ofStakes block.fork := by
    intro hsame
    rw [hsame] at hkind
    unfold TxKind.ofStakes at hkind
    split at hkind <;> cases hkind
  unfold applyTransaction
  rw [if_neg hstakes]
  cases hkind' : tx.kind with
  | bridgeLeave => exact .inl ⟨rfl, rfl⟩
  | bridgeExit => exact .inr (.inl ⟨rfl, rfl⟩)
  | bridgeDeregister => exact .inr (.inr ⟨rfl, rfl⟩)
  | _ =>
      rw [hkind'] at hkind
      cases hkind

/-- A transaction that names no registered node does nothing. -/
theorem eq_of_named?_none (hkind : tx.kind.namesBlsKey = true) (hnone : d.named? tx = none) :
    d.applyTransaction ctx block tx index = d := by
  unfold named? Transaction.namedBlsKey? at hnone
  rcases applyTransaction_of_bridge (d := d) hkind with ⟨heq, hkind⟩ | ⟨heq, hkind⟩ | ⟨heq, hkind⟩
  · rw [hkind] at hnone
    rw [heq, leave, hnone]
  · rw [hkind] at hnone
    rw [heq, exit]
    cases hexit : tx.bridgeExit? with
    | none => rfl
    | some exit =>
        rw [hexit] at hnone
        replace hnone : d.registry.findByBlsKey? exit.blsKey = none := hnone
        dsimp only
        rw [hnone]
  · rw [hkind] at hnone
    rw [heq, expel, hnone]

/-- One that names a registered node reaches that node only. -/
theorem differsAt_of_named? (hkind : tx.kind.namesBlsKey = true) (hsome : d.named? tx = some key) :
    DiffersAt key d (d.applyTransaction ctx block tx index) := by
  unfold named? Transaction.namedBlsKey? at hsome
  rcases applyTransaction_of_bridge (d := d) hkind with ⟨heq, hkind⟩ | ⟨heq, hkind⟩ | ⟨heq, hkind⟩
  · rw [hkind] at hsome
    rw [heq, leave, hsome]
    exact ⟨fun other hother => (Registry.info?_modify _ _ _ _).trans (if_neg hother), [],
      (List.append_nil _).symm, by simp⟩
  · rw [hkind] at hsome
    rw [heq, exit]
    cases hexit : tx.bridgeExit? with
    | none =>
        rw [hexit] at hsome
        cases hsome
    | some exit =>
        rw [hexit] at hsome
        replace hsome : d.registry.findByBlsKey? exit.blsKey = some key := hsome
        dsimp only
        rw [hsome]
        dsimp only
        split
        · exact .refl key d
        · exact ⟨fun _ _ => rfl, _, rfl, by simp⟩
  · rw [hkind] at hsome
    rw [heq, expel, hsome]
    exact ⟨fun other hother => (Registry.info?_remove _ _ _).trans (if_neg hother), [],
      (List.append_nil _).symm, by simp⟩

end Draft

/-- What is found by a BLS key has that key. -/
theorem Registry.blsKey_of_findByBlsKey? {r : Registry} {blsKey : BlsKey} {key : PublicKey}
    (h : r.findByBlsKey? blsKey = some key) :
    ∃ info, r.info? key = some info ∧ info.blsKey = blsKey := by
  obtain ⟨⟨_, info⟩, hfound, rfl⟩ := Option.map_eq_some_iff.1 h
  exact ⟨info, SortedMap.get?_eq_some_iff.2 (List.mem_of_find?_eq_some hfound),
    by simpa using List.find?_some hfound⟩

/-! ## Every run -/

namespace Registry

/-- The registries that allowed blocks lead to from an empty one, with the origins of their
entries. -/
inductive Traced (Allowed : Context → Block → List Transaction → Prop) :
    Registry → Origins → Prop where
  | new (height : Nat) (origins : Origins) : Traced Allowed (Registry.new height) origins
  | apply {r next : Registry} {origins : Origins} {ctx : Context} {block : Block}
      {txs : List Transaction} {outcome : Outcome} (traced : Traced Allowed r origins)
      (allowed : Allowed ctx block txs) (applied : r.apply ctx block txs = .ok (next, outcome)) :
      Traced Allowed next (r.originsAfter ctx block txs origins)

/-- Blocks of every fork, in any surroundings. -/
def Anything (_ : Context) (_ : Block) (_ : List Transaction) : Prop := True

/-- Blocks before the bridge. -/
def AheadOfBridge (_ : Context) (block : Block) (_ : List Transaction) : Prop :=
  block.fork < HardFork.bridge

variable {r : Registry} {origins : Origins}

/-- A law of BLS keys that all allowed blocks obey holds in every registry that they lead to. -/
theorem Traced.keyed {Allowed : Context → Block → List Transaction → Prop}
    {P : Origin → BlsKey → Prop}
    (law : ∀ {ctx : Context} {block : Block} {txs : List Transaction}, Allowed ctx block txs →
      BlsKeyLaw ctx block P)
    (h : Traced Allowed r origins) : r.Keyed P origins := by
  induction h with
  | new height origins =>
      intro key info hinfo
      cases hinfo
  | apply _ allowed applied ih => exact ih.apply (law allowed) applied

/-- Whoever a transaction names has a BLS key, if the transaction names another key than zero. -/
theorem exists_blsKey_of_named? {d : Draft} {tx : Transaction} {key : PublicKey}
    (hnonzero : tx.namedBlsKey? ≠ some 0) (hnamed : d.named? tx = some key) :
    ∃ info, d.registry.info? key = some info ∧ info.blsKey ≠ 0 := by
  obtain ⟨blsKey, hblsKey, hfound⟩ := Option.bind_eq_some_iff.1 hnamed
  obtain ⟨info, hinfo, rfl⟩ := blsKey_of_findByBlsKey? hfound
  exact ⟨info, hinfo, fun hzero => hnonzero (hzero ▸ hblsKey)⟩

/-- Whatever blocks led to a registry, and whatever comes earlier in a block: a request to leave,
an exit or a forced removal that names another BLS key than zero leaves every entry of an ordinary
registration as it is, and pays back stakes of nodes of the bridge only. When no block so far was of
the bridge's fork or a later one, and neither is this one, it does nothing at all. -/
theorem Traced.ordinary_out_of_reach (h : Traced Anything r origins) (ctx : Context)
    (block : Block) (earlier : List Transaction) {tx : Transaction}
    (hkind : tx.kind.namesBlsKey = true) (hnonzero : tx.namedBlsKey? ≠ some 0) :
    (∀ key, r.originsAfter ctx block earlier origins key = .ordinary →
      (r.draft ctx block (earlier ++ [tx])).registry.info? key =
        (r.draft ctx block earlier).registry.info? key) ∧
    (∃ new, (r.draft ctx block (earlier ++ [tx])).outcome.returned =
        (r.draft ctx block earlier).outcome.returned ++ new ∧
      ∀ returned ∈ new, r.originsAfter ctx block earlier origins returned.nodeKey = .bridge) ∧
    (Traced AheadOfBridge r origins → block.fork < HardFork.bridge →
      r.draft ctx block (earlier ++ [tx]) = r.draft ctx block earlier) := by
  rw [draft_concat]
  cases hnamed : (r.draft ctx block earlier).named? tx with
  | none =>
      rw [Draft.eq_of_named?_none hkind hnamed]
      exact ⟨fun _ _ => rfl, ⟨[], (List.append_nil _).symm, by simp⟩, fun _ _ => rfl⟩
  | some key =>
      obtain ⟨info, hinfo, hblsKey⟩ := exists_blsKey_of_named? hnonzero hnamed
      have horigin : r.originsAfter ctx block earlier origins key = .bridge := by
        have hkeyed := (h.keyed fun _ => blsKeyLaw_ordinary _ _).draft
          (blsKeyLaw_ordinary ctx block) earlier
        cases horigin : r.originsAfter ctx block earlier origins key with
        | ordinary => exact absurd (hkeyed key info hinfo horigin) hblsKey
        | bridge => rfl
      obtain ⟨hentries, new, hreturned, hnew⟩ := Draft.differsAt_of_named? hkind hnamed
      refine ⟨fun other hother => hentries other ?_, ⟨new, hreturned, fun returned hmem => ?_⟩,
        fun hearly hfork => ?_⟩
      · rintro rfl
        cases horigin.symm.trans hother
      · rw [hnew returned hmem]
        exact horigin
      · -- Before the bridge nobody has a BLS key.
        have hkeyed := (hearly.keyed fun hallowed => blsKeyLaw_early _ hallowed).draft
          (blsKeyLaw_early ctx hfork) earlier
        exact absurd (hkeyed key info hinfo) hblsKey

end Registry

/-- The forced removal of the node with a BLS key. -/
def Transaction.expelling (blsKey : BlsKey) : Transaction :=
  { (default : Transaction) with kind := .bridgeDeregister, extra := [.bridgeDeregister blsKey] }

namespace Registry

theorem traced_sharedOpen {Allowed : Context → Block → List Transaction → Prop}
    (hallowed : Allowed (.bare (new 1)) (.plain 2 .v19) [sharedRegistration]) :
    Traced Allowed sharedOpen ((new 1).originsAfter (.bare (new 1)) (.plain 2 .v19)
      [sharedRegistration] fun _ => .bridge) := by
  have happly : ∃ outcome, (new 1).apply (.bare (new 1)) (.plain 2 .v19) [sharedRegistration] =
      .ok (sharedOpen, outcome) := apply_eq_after (by decide +kernel)
  obtain ⟨outcome, happly⟩ := happly
  exact .apply (.new 1 _) hallowed happly

/-- A node of the bridge is removed by its BLS key, and one of an ordinary registration stays. -/
theorem ordinary_out_of_reach_of_removal :
    ∃ r origins, Traced AheadOfBridge r origins ∧ origins (.writing 7) = .ordinary ∧
      (r.info? (.writing 7)).isSome = true ∧
      ((r.draft (.bare r) (.plain 3 .v21) [.registering 1]).registry.info?
        (.writing 1)).isSome = true ∧
      (r.draft (.bare r) (.plain 3 .v21) [.registering 1, .expelling (.writing 1)]).registry.info?
        (.writing 1) = none ∧
      (r.draft (.bare r) (.plain 3 .v21) [.registering 1, .expelling (.writing 1)]).registry.info?
        (.writing 7) =
          (r.draft (.bare r) (.plain 3 .v21) [.registering 1]).registry.info? (.writing 7) ∧
      r.draft (.bare r) (.plain 3 .v19) [.expelling (.writing 1)] =
        r.draft (.bare r) (.plain 3 .v19) [] := by
  have hkind : (Transaction.expelling (.writing 1)).kind.namesBlsKey = true := rfl
  have htraced : Traced Anything sharedOpen _ := traced_sharedOpen trivial
  obtain ⟨hlate, -, -⟩ := htraced.ordinary_out_of_reach (.bare sharedOpen) (.plain 3 .v21)
    [.registering 1] hkind (by decide)
  obtain ⟨-, -, hnothing⟩ := htraced.ordinary_out_of_reach (.bare sharedOpen) (.plain 3 .v19) []
    hkind (by decide)
  have hfork : HardFork.v19 < HardFork.bridge := by decide
  have hearly : Traced AheadOfBridge sharedOpen _ := traced_sharedOpen hfork
  exact ⟨sharedOpen, _, hearly, by decide +kernel, by decide +kernel, by decide +kernel,
    by decide +kernel, hlate (.writing 7) (by decide +kernel), hnothing hearly hfork⟩

/-- Long before the bridge, a forced removal that names the key zero removes a node that came by an
ordinary registration. -/
theorem ordinary_removed_by_zero :
    ∃ r origins, Traced AheadOfBridge r origins ∧ origins (.writing 7) = .ordinary ∧
      ((r.draft (.bare r) (.plain 3 .v19) []).registry.info? (.writing 7)).isSome = true ∧
      (r.draft (.bare r) (.plain 3 .v19) [.expelling 0]).registry.info? (.writing 7) = none :=
  ⟨sharedOpen, _, traced_sharedOpen (show HardFork.v19 < HardFork.bridge by decide),
    by decide +kernel, by decide +kernel, by decide +kernel⟩

end Registry

end StakeRegistry
