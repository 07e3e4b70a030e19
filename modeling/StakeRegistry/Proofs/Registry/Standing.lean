import StakeRegistry.Transition.Apply

/-!
# Who is active

The nodes of a registry that pass a test, by their keys. Every node has one entry, so a key
occurs once in such a list (`nodup_keys_select`), and no node is active and decommissioned at
once. New swarms leave the active nodes as they are (`SameActive.rebalanceSwarms`).
-/

set_option autoImplicit false

namespace StakeRegistry

/-- The keys of nodes. -/
def NodeList.keys (nodes : NodeList) : List PublicKey := nodes.map (·.1)

namespace NodeList

theorem length_keys (nodes : NodeList) : nodes.keys.length = nodes.length := List.length_map _

theorem keys_append (nodes others : NodeList) :
    NodeList.keys (nodes ++ others) = nodes.keys ++ others.keys := List.map_append

theorem keys_perm {nodes nodes' : NodeList} (h : nodes.Perm nodes') :
    nodes.keys.Perm nodes'.keys := h.map _

theorem keys_sublist {nodes nodes' : NodeList} (h : nodes.Sublist nodes') :
    nodes.keys.Sublist nodes'.keys := h.map _

end NodeList

namespace Registry

theorem nodup_keys (r : Registry) : (NodeList.keys r.nodes.toList).Nodup := r.nodes.nodup_keys

/-- Every key occurs once among the nodes that pass a test. -/
theorem nodup_keys_select (r : Registry) (p : NodeInfo → Bool) : (r.select p).keys.Nodup :=
  (NodeList.keys_sublist List.filter_sublist).nodup r.nodup_keys

/-- A key is that of a node which passes a test exactly if its entry does. -/
theorem mem_keys_select {r : Registry} {p : NodeInfo → Bool} {key : PublicKey} :
    key ∈ (r.select p).keys ↔ (r.info? key).any p = true := by
  rw [Option.any_eq_true]
  unfold NodeList.keys select info?
  simp only [List.mem_map, List.mem_filter, SortedMap.get?_eq_some_iff]
  constructor
  · rintro ⟨⟨_, info⟩, ⟨hmem, hp⟩, rfl⟩
    exact ⟨info, hmem, hp⟩
  · rintro ⟨info, hmem, hp⟩
    exact ⟨(key, info), ⟨hmem, hp⟩, rfl⟩

/-- A node that passes a test has an entry. -/
theorem exists_info_of_mem_select {r : Registry} {p : NodeInfo → Bool} {key : PublicKey}
    (h : key ∈ (r.select p).keys) : ∃ info, r.info? key = some info := by
  obtain ⟨info, hinfo, -⟩ := (Option.any_eq_true _ _).1 (mem_keys_select.1 h)
  exact ⟨info, hinfo⟩

/-- No node is in service and out of it. -/
theorem disjoint_active_decommissioned (r : Registry) :
    ∀ key ∈ r.active.keys, key ∉ r.decommissioned.keys := by
  intro key hactive hdecommissioned
  obtain ⟨info, hinfo, hup⟩ := (Option.any_eq_true _ _).1 (mem_keys_select.1 hactive)
  obtain ⟨info', hinfo', hdown⟩ := (Option.any_eq_true _ _).1 (mem_keys_select.1 hdecommissioned)
  cases hinfo.symm.trans hinfo'
  simp only [NodeInfo.isActive, Bool.and_eq_true, Bool.not_eq_true'] at hup hdown
  rw [hup.2] at hdown
  cases hdown.1

/-- The same nodes are active in both registries. -/
def SameActive (r r' : Registry) : Prop :=
  ∀ key, (r'.info? key).any (·.isActive) = (r.info? key).any (·.isActive)

namespace SameActive

theorem refl (r : Registry) : r.SameActive r := fun _ => rfl

theorem trans {r r' r'' : Registry} (h : r.SameActive r') (h' : r'.SameActive r'') :
    r.SameActive r'' := fun key => (h' key).trans (h key)

theorem modify (r : Registry) (key : PublicKey) {f : NodeInfo → NodeInfo}
    (hf : ∀ info, (f info).isActive = info.isActive) : r.SameActive (r.modify key f) := by
  intro key'
  unfold Registry.modify info?
  cases hinfo : r.nodes.get? key with
  | none => rfl
  | some info =>
      dsimp only
      rw [SortedMap.get?_insert]
      by_cases hkey : key' = key
      · subst hkey
        rw [if_pos rfl, hinfo]
        exact hf info
      · rw [if_neg hkey]

theorem foldl {α : Type} {f : Registry → α → Registry}
    (hf : ∀ (r : Registry) (a : α), r.SameActive (f r a)) (l : List α) (r : Registry) :
    r.SameActive (l.foldl f r) := by
  induction l generalizing r with
  | nil => exact refl r
  | cons a l ih => exact (hf r a).trans (ih (f r a))

theorem assignSwarms (r : Registry) (swarms : SwarmMap) :
    r.SameActive (r.assignSwarms swarms) :=
  foldl (fun r (s : Nat × List PublicKey) => foldl
    (fun r key => modify r key (f := fun info => { info with swarm := s.1 }) fun _ => rfl) s.2 r)
    _ r

/-- New swarms change no node's standing. -/
theorem rebalanceSwarms (r : Registry) (block : Block) :
    r.SameActive (r.rebalanceSwarms block) := assignSwarms r _

theorem noteTurns (r : Registry) (height : Nat) (validators : List PublicKey) :
    r.SameActive (r.noteTurns height validators) := by
  refine foldl (fun r v => ?_) _ r
  exact modify r v.1 fun _ => rfl

/-- Neither does a Pulse quorum, or a payment. -/
theorem formPulseQuorum (r : Registry) (ctx : Context) (block : Block) (winner : PublicKey) :
    r.SameActive (r.formPulseQuorum ctx block winner) := by
  unfold Registry.formPulseQuorum
  split
  · exact refl r
  · dsimp only
    split
    · exact noteTurns r block.height _
    · exact refl r

theorem payWinner (r : Registry) (block : Block) (winner : PublicKey) :
    r.SameActive (r.payWinner block winner) := modify r winner fun _ => rfl

theorem trimBlacklist (r : Registry) (block : Block) : r.SameActive (r.trimBlacklist block) := by
  unfold Registry.trimBlacklist
  split
  · exact fun _ => rfl
  · exact refl r

theorem keys_perm {r r' : Registry} (h : r.SameActive r') :
    r'.active.keys.Perm r.active.keys := by
  refine (List.perm_ext_iff_of_nodup (nodup_keys_select _ _) (nodup_keys_select _ _)).2
    fun key => ?_
  rw [mem_keys_select, mem_keys_select, h key]

end SameActive

end Registry

end StakeRegistry
