import Mathlib.Data.List.Induction
import StakeRegistry.Uptime.Record

/-!
# The addresses in a record

A record has two entries for the addresses of a node. They do not move, and the one that was seen
longer ago gives way to an address that is in neither, so that they hold the two addresses seen
last, whatever the order in which addresses come back. To say so, all addresses are listed with
their last sightings, the newest first (`Recalls`); a sighting moves its address to the front of
that list. Main statements:

* `Recalls.note`: the list after one more sighting;
* `Entries.seeIp`: a sighting keeps the first two of the list in the entries;
* `ProofRecord.addresses_seen_last`: the entries after any accepted proofs.
-/

set_option autoImplicit false

namespace StakeRegistry

/-! ## The last sighting of each address -/

/-- Of all sightings of its address, this is the last. -/
def SeenIp.IsLastIn (e : SeenIp) (sightings : List SeenIp) : Prop :=
  e ∈ sightings ∧ ∀ a ∈ sightings, a.ip = e.ip → a.time ≤ e.time

/-- The list has the last sighting of each address, the newest first. -/
structure Recalls (sightings seen : List SeenIp) : Prop where
  newestFirst : seen.Pairwise fun a b => b.time < a.time
  addressOnce : seen.Pairwise fun a b => a.ip ≠ b.ip
  mem_iff : ∀ e, e ∈ seen ↔ e.IsLastIn sightings

/-- Moves the address of a sighting to the front. -/
def noteSighting (seen : List SeenIp) (e : SeenIp) : List SeenIp :=
  e :: seen.filter fun a => a.ip != e.ip

section Sightings

variable {sightings seen : List SeenIp} {e : SeenIp}

theorem mem_noteSighting {a : SeenIp} :
    a ∈ noteSighting seen e ↔ a = e ∨ a ∈ seen ∧ a.ip ≠ e.ip := by
  simp [noteSighting]

theorem Recalls.note (h : Recalls sightings seen) (hlater : ∀ a ∈ sightings, a.time < e.time) :
    Recalls (sightings ++ [e]) (noteSighting seen e) := by
  have hsublist : (seen.filter fun a => a.ip != e.ip).Sublist seen := List.filter_sublist
  constructor
  · refine List.pairwise_cons.2 ⟨fun a ha => ?_, h.newestFirst.sublist hsublist⟩
    exact hlater a ((h.mem_iff a).1 (hsublist.mem ha)).1
  · refine List.pairwise_cons.2 ⟨fun a ha => ?_, h.addressOnce.sublist hsublist⟩
    have hother : a.ip ≠ e.ip := by simpa using (List.mem_filter.1 ha).2
    exact hother.symm
  · intro a
    rw [mem_noteSighting]
    constructor
    · rintro (rfl | ⟨ha, hother⟩)
      · refine ⟨by simp, fun b hb _ => ?_⟩
        rcases List.mem_append.1 hb with hb | hb
        · exact Nat.le_of_lt (hlater b hb)
        · exact Nat.le_of_eq (congrArg SeenIp.time (List.mem_singleton.1 hb))
      · obtain ⟨hseen, hlast⟩ := (h.mem_iff a).1 ha
        refine ⟨List.mem_append_left _ hseen, fun b hb hip => ?_⟩
        rcases List.mem_append.1 hb with hb | hb
        · exact hlast b hb hip
        · rw [List.mem_singleton.1 hb] at hip
          exact absurd hip.symm hother
    · rintro ⟨ha, hlast⟩
      rcases List.mem_append.1 ha with ha | ha
      · -- An older sighting of the same address would not be the last one.
        have hother : a.ip ≠ e.ip := by
          intro hip
          have hnewer := hlater a ha
          have holder := hlast e (by simp) hip.symm
          omega
        refine .inr ⟨(h.mem_iff a).2 ⟨ha, fun b hb => ?_⟩, hother⟩
        exact hlast b (List.mem_append_left _ hb)
      · exact .inl (List.mem_singleton.1 ha)

end Sightings

/-! ## The two entries -/

/-- The first two of a list are in the entries, in either order; of a single one, the second entry
is empty. -/
inductive Entries : List SeenIp → SeenIp → SeenIp → Prop where
  | empty : Entries [] {} {}
  | one (a : SeenIp) : Entries [a] a {}
  | newerFirst (a b : SeenIp) (rest : List SeenIp) : Entries (a :: b :: rest) a b
  | newerSecond (a b : SeenIp) (rest : List SeenIp) : Entries (a :: b :: rest) b a

theorem Entries.perm {seen : List SeenIp} {first second : SeenIp}
    (h : Entries seen first second) :
    [first, second].Perm ((seen.take 2).rightpad 2 {}) := by
  cases h with
  | empty => exact .refl _
  | one a => exact .refl _
  | newerFirst a b rest => exact .refl _
  | newerSecond a b rest => exact .swap _ _ _

namespace ProofRecord

variable {r : ProofRecord} {ip now : Nat}

/-! The four things that a sighting can do to the entries. -/

theorem seeIp_of_first (hfirst : r.firstIp.ip ≠ 0 ∧ r.firstIp.ip = ip) :
    r.seeIp ip now = { r with firstIp := ⟨ip, now⟩ } := by
  unfold seeIp
  rw [if_pos hfirst]

theorem seeIp_of_second (hfirst : ¬ (r.firstIp.ip ≠ 0 ∧ r.firstIp.ip = ip))
    (hsecond : r.secondIp.ip ≠ 0 ∧ r.secondIp.ip = ip) :
    r.seeIp ip now = { r with secondIp := ⟨ip, now⟩ } := by
  unfold seeIp
  rw [if_neg hfirst, if_pos hsecond]

theorem seeIp_of_new (hfirst : ¬ (r.firstIp.ip ≠ 0 ∧ r.firstIp.ip = ip))
    (hsecond : ¬ (r.secondIp.ip ≠ 0 ∧ r.secondIp.ip = ip)) :
    r.seeIp ip now =
      if r.secondIp.time < r.firstIp.time then { r with secondIp := ⟨ip, now⟩ }
      else { r with firstIp := ⟨ip, now⟩ } := by
  unfold seeIp
  rw [if_neg hfirst, if_neg hsecond]

end ProofRecord

/-- A sighting keeps the first two of the list in the entries: its address stays where it is, or
takes the place of the one that was seen longer ago. -/
theorem Entries.seeIp {seen : List SeenIp} {r : ProofRecord} {e : SeenIp}
    (h : Entries seen r.firstIp r.secondIp)
    (hnewest : seen.Pairwise fun a b => b.time < a.time)
    (honce : seen.Pairwise fun a b => a.ip ≠ b.ip)
    (hseen : ∀ a ∈ seen, 0 < a.time ∧ a.ip ≠ 0) :
    Entries (noteSighting seen e) (r.seeIp e.ip e.time).firstIp (r.seeIp e.ip e.time).secondIp := by
  generalize hfirst : r.firstIp = first at h
  generalize hsecond : r.secondIp = second at h
  cases h with
  | empty =>
      rw [ProofRecord.seeIp_of_new (by simp [hfirst]) (by simp [hsecond])]
      simpa [hfirst, hsecond, noteSighting] using Entries.one e
  | one =>
      obtain ⟨htime, hip⟩ := hseen first (by simp)
      by_cases ha : first.ip = e.ip
      · rw [ProofRecord.seeIp_of_first (by rw [hfirst]; exact ⟨hip, ha⟩)]
        simpa [hsecond, noteSighting, ha] using Entries.one e
      · rw [ProofRecord.seeIp_of_new (by simp [hfirst, ha]) (by simp [hsecond])]
        simpa [hfirst, hsecond, noteSighting, ha, htime] using Entries.newerSecond e first []
  | newerFirst _ _ rest =>
      obtain ⟨-, hip⟩ := hseen first (by simp)
      obtain ⟨-, hip'⟩ := hseen second (by simp)
      have holder : second.time < first.time := List.rel_of_pairwise_cons hnewest (by simp)
      have hother : first.ip ≠ second.ip := List.rel_of_pairwise_cons honce (by simp)
      -- The address is in one of the entries, or the second one is the older and gives way.
      by_cases ha : first.ip = e.ip
      · rw [ProofRecord.seeIp_of_first (by rw [hfirst]; exact ⟨hip, ha⟩)]
        have hb : second.ip ≠ e.ip := ha ▸ hother.symm
        simpa [hsecond, noteSighting, ha, hb] using Entries.newerFirst e second _
      · by_cases hb : second.ip = e.ip
        · rw [ProofRecord.seeIp_of_second (by simp [hfirst, ha])
            (by rw [hsecond]; exact ⟨hip', hb⟩)]
          simpa [hfirst, noteSighting, ha] using Entries.newerSecond e first _
        · rw [ProofRecord.seeIp_of_new (by simp [hfirst, ha]) (by simp [hsecond, hb])]
          simpa [hfirst, hsecond, noteSighting, ha, holder] using Entries.newerSecond e first _
  | newerSecond _ _ rest =>
      obtain ⟨-, hip⟩ := hseen first (by simp)
      obtain ⟨-, hip'⟩ := hseen second (by simp)
      have holder : first.time < second.time := List.rel_of_pairwise_cons hnewest (by simp)
      have hother : second.ip ≠ first.ip := List.rel_of_pairwise_cons honce (by simp)
      -- Likewise, with the first one as the older.
      by_cases hb : second.ip = e.ip
      · have ha : first.ip ≠ e.ip := hb ▸ hother.symm
        rw [ProofRecord.seeIp_of_second (by simp [hfirst, ha])
          (by rw [hsecond]; exact ⟨hip', hb⟩)]
        simpa [hfirst, noteSighting, ha, hb] using Entries.newerSecond e first _
      · by_cases ha : first.ip = e.ip
        · rw [ProofRecord.seeIp_of_first (by rw [hfirst]; exact ⟨hip, ha⟩)]
          simpa [hsecond, noteSighting, hb] using Entries.newerFirst e second _
        · rw [ProofRecord.seeIp_of_new (by simp [hfirst, ha]) (by simp [hsecond, hb])]
          have hnewer : ¬ second.time < first.time := by omega
          simpa [hfirst, hsecond, noteSighting, hb, hnewer] using Entries.newerFirst e second _

/-! ## Accepted proofs -/

/-- A proof that was accepted: when it came, and the transport key that it yielded. -/
structure Arrival where
  time : Nat
  proof : UptimeProof
  key : X25519Key
  deriving DecidableEq

/-- The address that a proof shows. -/
def Arrival.sighting (a : Arrival) : SeenIp := ⟨a.proof.publicIp, a.time⟩

namespace ProofRecord

/-- The record after some proofs, the oldest of which comes first. -/
def ofArrivals (arrivals : List Arrival) : ProofRecord :=
  arrivals.foldl (fun r a => r.update a.time a.proof a.key) {}

theorem ofArrivals_concat (arrivals : List Arrival) (a : Arrival) :
    ofArrivals (arrivals ++ [a]) = (ofArrivals arrivals).update a.time a.proof a.key := by
  simp [ofArrivals]

/-- **Addresses**: after any proofs that came one after the other at positive times, each with an
address, the two entries of the record hold the two addresses that were seen last, each with the
time at which it was last seen. An entry for which there is no address is empty. -/
theorem addresses_seen_last {arrivals : List Arrival}
    (hascends : arrivals.Pairwise fun a b => a.time < b.time)
    (htimes : ∀ a ∈ arrivals, 0 < a.time) (hips : ∀ a ∈ arrivals, a.proof.publicIp ≠ 0) :
    ∃ seen, Recalls (arrivals.map Arrival.sighting) seen ∧
      [(ofArrivals arrivals).firstIp, (ofArrivals arrivals).secondIp].Perm
        ((seen.take 2).rightpad 2 {}) := by
  suffices h : ∃ seen, Recalls (arrivals.map Arrival.sighting) seen ∧
      Entries seen (ofArrivals arrivals).firstIp (ofArrivals arrivals).secondIp by
    obtain ⟨seen, hrecalls, hentries⟩ := h
    exact ⟨seen, hrecalls, hentries.perm⟩
  induction arrivals using List.reverseRecOn with
  | nil => exact ⟨[], ⟨.nil, .nil, by simp [SeenIp.IsLastIn]⟩, .empty⟩
  | append_singleton arrivals a ih =>
      obtain ⟨hbefore, -, hlater⟩ := List.pairwise_append.1 hascends
      obtain ⟨seen, hrecalls, hentries⟩ := ih hbefore
        (fun b hb => htimes b (List.mem_append_left _ hb))
        (fun b hb => hips b (List.mem_append_left _ hb))
      have hnewer : ∀ e ∈ arrivals.map Arrival.sighting, e.time < a.sighting.time := by
        intro e he
        obtain ⟨b, hb, rfl⟩ := List.mem_map.1 he
        exact hlater b hb a (by simp)
      have hseen : ∀ e ∈ seen, 0 < e.time ∧ e.ip ≠ 0 := by
        intro e he
        obtain ⟨b, hb, rfl⟩ := List.mem_map.1 ((hrecalls.mem_iff e).1 he).1
        exact ⟨htimes b (List.mem_append_left _ hb), hips b (List.mem_append_left _ hb)⟩
      refine ⟨noteSighting seen a.sighting, ?_, ?_⟩
      · rw [List.map_append, List.map_singleton]
        exact hrecalls.note hnewer
      · rw [ofArrivals_concat]
        exact Entries.seeIp (e := a.sighting) hentries hrecalls.newestFirst hrecalls.addressOnce
          hseen

/-- An address that comes back keeps its entry, and the next new one takes the other. -/
theorem addresses_seen_last_of_return :
    let proof (ip : Nat) : UptimeProof := { publicIp := ip }
    let arrivals : List Arrival :=
      [⟨10, proof 1, 0⟩, ⟨20, proof 2, 0⟩, ⟨30, proof 1, 0⟩, ⟨40, proof 3, 0⟩]
    (arrivals.Pairwise fun a b => a.time < b.time) ∧ (∀ a ∈ arrivals, 0 < a.time) ∧
      (∀ a ∈ arrivals, a.proof.publicIp ≠ 0) ∧
      (ofArrivals arrivals).firstIp = ⟨1, 30⟩ ∧ (ofArrivals arrivals).secondIp = ⟨3, 40⟩ ∧
      ∃ seen, Recalls [⟨1, 10⟩, ⟨2, 20⟩, ⟨1, 30⟩, ⟨3, 40⟩] seen ∧
        [⟨1, 30⟩, ⟨3, 40⟩].Perm ((seen.take 2).rightpad 2 {}) := by
  intro proof arrivals
  have hascends : arrivals.Pairwise fun a b => a.time < b.time := by decide
  have htimes : ∀ a ∈ arrivals, 0 < a.time := by decide
  have hips : ∀ a ∈ arrivals, a.proof.publicIp ≠ 0 := by decide
  exact ⟨hascends, htimes, hips, by decide, by decide, addresses_seen_last hascends htimes hips⟩

end ProofRecord

end StakeRegistry
