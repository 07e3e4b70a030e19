import StakeRegistry.Verification.Votes

/-!
# What votes on a state change amount to

A quorum that a state change was verified against has really voted for it
(`StateChange.CarriedBy`): in time, each voter once, and with a signature over the change
itself. If no member sits in the quorum twice, the voters are as many different nodes
(`StateChange.CarriedBy.exists_voters`).
-/

set_option autoImplicit false

namespace StakeRegistry

/-- A quorum carries a state change in a block at height `latest`. -/
structure StateChange.CarriedBy (suite : CryptoSuite) (change : StateChange) (latest : Nat)
    (q : Quorum) : Prop where
  enough : stateChangeVotes ≤ change.votes.length
  past : change.height < latest
  alive : latest ≤ wrapAdd change.height voteLifetime
  onWorker : change.index < q.workers.length
  /-- Nobody votes twice. -/
  distinct : (change.votes.map (·.validatorIndex)).Nodup
  signed : ∀ vote ∈ change.votes, ∃ voter, q.validators[vote.validatorIndex]? = some voter ∧
    suite.verify (voteHash suite change.height change.index change.kind) voter vote.signature =
      true

/-- Votes count only while they are in their lifetime. -/
theorem StateChange.CarriedBy.inLifetime {suite : CryptoSuite} {change : StateChange}
    {latest : Nat} {q : Quorum} (h : change.CarriedBy suite latest q) :
    change.height < latest ∧ latest ≤ change.height + voteLifetime :=
  ⟨h.past, Nat.le_trans h.alive (wrapAdd_le _ _)⟩

/-- Votes verify exactly if they come from different members that have not voted before, and
each is signed by its member. -/
theorem verifyVotes_eq_ok_iff {suite : CryptoSuite} {hash : Hash} {validators : List PublicKey}
    {seen : List Nat} {votes : List StateChangeVote} :
    verifyVotes suite hash validators seen votes = .ok () ↔
      (votes.map (·.validatorIndex)).Nodup ∧ (∀ vote ∈ votes, vote.validatorIndex ∉ seen) ∧
        ∀ vote ∈ votes, ∃ voter, validators[vote.validatorIndex]? = some voter ∧
          suite.verify hash voter vote.signature = true := by
  -- Over the votes: those already counted are seen by the ones behind them.
  induction votes generalizing seen with
  | nil => simp [verifyVotes]
  | cons vote rest ih =>
      unfold verifyVotes
      dsimp only
      rw [List.map_cons, List.nodup_cons, List.forall_mem_cons, List.forall_mem_cons]
      cases hvoter : validators[vote.validatorIndex]? with
      | none => simp
      | some voter =>
          dsimp only
          by_cases hseen : vote.validatorIndex ∈ seen
          · simp [hseen]
          · by_cases hsigned : suite.verify hash voter vote.signature = true
            · rw [if_neg hseen, if_neg (by simp [hsigned]), ih]
              constructor
              · rintro ⟨hdistinct, hunseen, hvoters⟩
                have hfresh : vote.validatorIndex ∉ rest.map (·.validatorIndex) := by
                  intro hmem
                  obtain ⟨other, hother, hsame⟩ := List.mem_map.1 hmem
                  exact hunseen other hother (by simp [hsame])
                exact ⟨⟨hfresh, hdistinct⟩,
                  ⟨hseen, fun other hother hmem => hunseen other hother (by simp [hmem])⟩,
                  ⟨voter, rfl, hsigned⟩, hvoters⟩
              · rintro ⟨⟨hfresh, hdistinct⟩, ⟨-, hunseen⟩, -, hvoters⟩
                refine ⟨hdistinct, fun other hother hmem => ?_, hvoters⟩
                rcases List.mem_cons.1 hmem with hsame | hmem
                · exact hfresh (List.mem_map.2 ⟨other, hother, hsame⟩)
                · exact hunseen other hother hmem
            · simp [hseen, hsigned]

/-- A state change verifies against a quorum exactly if the quorum carries it. -/
theorem verifyStateChange_isOk_iff {suite : CryptoSuite} {change : StateChange} {latest : Nat}
    {q : Quorum} : (verifyStateChange suite change latest q).isOk = true ↔
      change.CarriedBy suite latest q := by
  unfold verifyStateChange
  constructor
  · intro h
    split at h
    · cases h
    split at h
    · cases h
    split at h
    · cases h
    split at h
    · cases h
    -- All limits are kept, so the votes themselves have been verified.
    have hvotes : verifyVotes suite (voteHash suite change.height change.index change.kind)
        q.validators [] change.votes = .ok () := by
      generalize verifyVotes suite _ q.validators [] change.votes = answer at h
      cases answer with
      | ok _ => rfl
      | error e => cases h
    obtain ⟨hdistinct, -, hsigned⟩ := verifyVotes_eq_ok_iff.1 hvotes
    exact ⟨by omega, by omega, by omega, by omega, hdistinct, hsigned⟩
  · rintro ⟨henough, hpast, halive, honWorker, hdistinct, hsigned⟩
    rw [if_neg (by omega), if_neg (by omega), if_neg (by omega), if_neg (by omega),
      verifyVotes_eq_ok_iff.2 ⟨hdistinct, by simp, hsigned⟩]
    rfl

/-- Items at different positions of a list of members without repetitions, each with a fact about
the member at its position, belong to as many different members. -/
theorem exists_members_at {α : Type} {position : α → Nat} {holds : PublicKey → α → Prop}
    {members : List PublicKey} {items : List α} (hdistinct : members.Nodup)
    (hpositions : (items.map position).Nodup)
    (hholds : ∀ a ∈ items, ∃ member, members[position a]? = some member ∧ holds member a) :
    ∃ found : List PublicKey, found.Nodup ∧ found.length = items.length ∧
      ∀ member ∈ found, member ∈ members ∧ ∃ a ∈ items, members[position a]? = some member ∧
        holds member a := by
  refine ⟨items.map fun a => members.getD (position a) 0, ?_, List.length_map _, ?_⟩
  · -- Different positions of a list without repetitions hold different keys.
    refine List.pairwise_map.2 ((List.pairwise_map.1 hpositions).imp_of_mem ?_)
    intro a b ha hb hne heq
    obtain ⟨member, hmember, -⟩ := hholds a ha
    obtain ⟨member', hmember', -⟩ := hholds b hb
    rw [List.getD_eq_getElem?_getD, List.getD_eq_getElem?_getD, hmember, hmember'] at heq
    obtain ⟨hlow, rfl⟩ := List.getElem?_eq_some_iff.1 hmember
    obtain ⟨hlow', rfl⟩ := List.getElem?_eq_some_iff.1 hmember'
    exact hne ((List.getElem_inj hdistinct).1 heq)
  · intro member hmem
    obtain ⟨a, ha, rfl⟩ := List.mem_map.1 hmem
    obtain ⟨member, hmember, hfact⟩ := hholds a ha
    rw [List.getD_eq_getElem?_getD, hmember]
    exact ⟨List.mem_of_getElem? hmember, a, ha, hmember, hfact⟩

/-- The voters on a change are as many different validators as are needed, and each has signed
the change. -/
theorem StateChange.CarriedBy.exists_voters {suite : CryptoSuite} {change : StateChange}
    {latest : Nat} {q : Quorum} (h : change.CarriedBy suite latest q)
    (hdistinct : q.validators.Nodup) :
    ∃ voters : List PublicKey, voters.Nodup ∧ stateChangeVotes ≤ voters.length ∧
      ∀ voter ∈ voters, voter ∈ q.validators ∧ ∃ vote ∈ change.votes,
        q.validators[vote.validatorIndex]? = some voter ∧
          suite.verify (voteHash suite change.height change.index change.kind) voter
            vote.signature = true := by
  obtain ⟨voters, hnodup, hlength, hvoters⟩ := exists_members_at hdistinct h.distinct h.signed
  exact ⟨voters, hnodup, hlength ▸ h.enough, hvoters⟩

end StakeRegistry
