/-!
# Maps in key order

A finite map kept as a list of pairs whose keys strictly ascend. The list is the map's one
normal form: two maps that answer every look-up alike are equal (`SortedMap.ext_get?`), and
reading the pairs back gives the same map (`SortedMap.ofList_toList`). Each operation is
described by what it does to look-ups (`get?_insert`, `get?_erase`, `get?_filter`), and an
insertion also by the pairs that it leaves (`toList_insert_perm`).
-/

set_option autoImplicit false

namespace StakeRegistry

variable {κ ν : Type} [Ord κ]

/-- A finite map: pairs in strictly ascending order of their keys. -/
structure SortedMap (κ ν : Type) [Ord κ] where
  toList : List (κ × ν)
  ascending : toList.Pairwise fun a b => compare a.1 b.1 = .lt

namespace SortedMap

@[ext] theorem ext {m m' : SortedMap κ ν} (h : m.toList = m'.toList) : m = m' := by
  cases m
  cases m'
  simp_all

instance [DecidableEq κ] [DecidableEq ν] : DecidableEq (SortedMap κ ν) := fun m m' =>
  if h : m.toList = m'.toList then .isTrue (ext h) else .isFalse fun e => h (e ▸ rfl)

/-- The map without pairs. -/
def empty : SortedMap κ ν := ⟨[], List.Pairwise.nil⟩

instance : EmptyCollection (SortedMap κ ν) := ⟨empty⟩

instance : Inhabited (SortedMap κ ν) := ⟨empty⟩

@[simp] theorem toList_empty : (∅ : SortedMap κ ν).toList = [] := rfl

/-- The value of the first pair with key `k`. -/
def lookup (k : κ) : List (κ × ν) → Option ν
  | [] => none
  | (k', v) :: rest => if compare k k' = .eq then some v else lookup k rest

/-- The value at key `k`. -/
def get? (m : SortedMap κ ν) (k : κ) : Option ν := lookup k m.toList

/-- Whether the map has a value at key `k`. -/
def contains (m : SortedMap κ ν) (k : κ) : Bool := (m.get? k).isSome

/-- The number of pairs. -/
def size (m : SortedMap κ ν) : Nat := m.toList.length

/-- Whether the map has no pair. -/
def isEmpty (m : SortedMap κ ν) : Bool := m.toList.isEmpty

/-- The keys, ascending. -/
def keys (m : SortedMap κ ν) : List κ := m.toList.map (·.1)

/-- The values, in the order of their keys. -/
def values (m : SortedMap κ ν) : List ν := m.toList.map (·.2)

/-! ## Writing -/

/-- Puts the pair `(k, v)` into an ascending list, in place of one with the same key. -/
def insertPair (k : κ) (v : ν) : List (κ × ν) → List (κ × ν)
  | [] => [(k, v)]
  | (k', v') :: rest =>
      match compare k k' with
      | .lt => (k, v) :: (k', v') :: rest
      | .eq => (k, v) :: rest
      | .gt => (k', v') :: insertPair k v rest

theorem mem_insertPair {k : κ} {v : ν} {l : List (κ × ν)} {p : κ × ν}
    (h : p ∈ insertPair k v l) : p = (k, v) ∨ p ∈ l := by
  induction l with
  | nil => simpa [insertPair] using h
  | cons q rest ih =>
      obtain ⟨k', v'⟩ := q
      simp only [insertPair] at h
      split at h
      · simpa using h
      · rcases List.mem_cons.1 h with h | h <;> simp [h]
      · rcases List.mem_cons.1 h with h | h
        · simp [h]
        · rcases ih h with h | h <;> simp [h]

section Ordered

variable [Std.TransOrd κ] [Std.LawfulEqOrd κ]

theorem ascending_insertPair (k : κ) (v : ν) {l : List (κ × ν)}
    (h : l.Pairwise fun a b => compare a.1 b.1 = .lt) :
    (insertPair k v l).Pairwise fun a b => compare a.1 b.1 = .lt := by
  induction l with
  | nil => simp [insertPair]
  | cons q rest ih =>
      obtain ⟨k', v'⟩ := q
      have hrest := List.pairwise_cons.1 h
      simp only [insertPair]
      split
      · rename_i hlt
        refine List.pairwise_cons.2 ⟨fun p hp => ?_, h⟩
        rcases List.mem_cons.1 hp with rfl | hp
        · exact hlt
        · exact Std.TransCmp.lt_trans hlt (hrest.1 p hp)
      · rename_i heq
        have : k = k' := Std.LawfulEqCmp.eq_of_compare heq
        subst this
        exact List.pairwise_cons.2 hrest
      · rename_i hgt
        refine List.pairwise_cons.2 ⟨fun p hp => ?_, ih hrest.2⟩
        rcases mem_insertPair hp with rfl | hp
        · exact Std.OrientedCmp.lt_of_gt hgt
        · exact hrest.1 p hp

/-- The map with value `v` at key `k`. -/
def insert (m : SortedMap κ ν) (k : κ) (v : ν) : SortedMap κ ν :=
  ⟨insertPair k v m.toList, ascending_insertPair k v m.ascending⟩

/-- The map of the pairs of a list; of two pairs with one key the later counts. -/
def ofList (l : List (κ × ν)) : SortedMap κ ν := l.foldl (fun m p => m.insert p.1 p.2) ∅

end Ordered

/-- The pairs that satisfy `p`. -/
def filter (p : κ → ν → Bool) (m : SortedMap κ ν) : SortedMap κ ν :=
  ⟨m.toList.filter fun q => p q.1 q.2, m.ascending.sublist List.filter_sublist⟩

/-- The map without a value at key `k`. -/
def erase (m : SortedMap κ ν) (k : κ) : SortedMap κ ν :=
  m.filter fun k' _ => !(compare k k' == .eq)

/-- Every value replaced by its image under `f`. -/
def mapValues {μ : Type} (f : κ → ν → μ) (m : SortedMap κ ν) : SortedMap κ μ :=
  ⟨m.toList.map fun p => (p.1, f p.1 p.2), by
    rw [List.pairwise_map]
    exact m.ascending⟩

/-- The pair with the greatest key. -/
def last? (m : SortedMap κ ν) : Option (κ × ν) := m.toList.getLast?

/-! ## Look-ups after each operation -/

@[simp] theorem get?_empty (k : κ) : (∅ : SortedMap κ ν).get? k = none := rfl

theorem lookup_eq_none {k : κ} {l : List (κ × ν)}
    (h : ∀ p ∈ l, compare k p.1 ≠ .eq) : lookup k l = none := by
  induction l with
  | nil => rfl
  | cons p rest ih =>
      have hp := h p (by simp)
      simp only [lookup, if_neg hp]
      exact ih fun q hq => h q (by simp [hq])

theorem mem_of_lookup [Std.LawfulEqOrd κ] {k : κ} {v : ν} {l : List (κ × ν)}
    (h : lookup k l = some v) : (k, v) ∈ l := by
  induction l with
  | nil => simp [lookup] at h
  | cons p rest ih =>
      simp only [lookup] at h
      split at h
      · rename_i heq
        have : k = p.1 := Std.LawfulEqCmp.eq_of_compare heq
        cases h
        simp [this]
      · exact List.mem_cons_of_mem _ (ih h)

theorem lookup_map {μ : Type} [Std.LawfulEqOrd κ] (f : κ → ν → μ) (k : κ) (l : List (κ × ν)) :
    lookup k (l.map fun p => (p.1, f p.1 p.2)) = (lookup k l).map (f k) := by
  induction l with
  | nil => rfl
  | cons p rest ih =>
      obtain ⟨k', v⟩ := p
      rw [List.map_cons]
      unfold lookup
      dsimp only
      split
      · rename_i heq
        have hkey : k = k' := Std.LawfulEqCmp.eq_of_compare heq
        rw [hkey]
        rfl
      · exact ih

theorem get?_mapValues {μ : Type} [Std.LawfulEqOrd κ] (f : κ → ν → μ) (m : SortedMap κ ν) (k : κ) :
    (m.mapValues f).get? k = (m.get? k).map (f k) :=
  lookup_map f k m.toList

theorem nodup_keys [Std.LawfulEqOrd κ] (m : SortedMap κ ν) : m.keys.Nodup := by
  refine List.pairwise_map.2 (m.ascending.imp fun {a b} hlt heq => ?_)
  have hself : compare b.1 b.1 = .eq := Std.ReflCmp.compare_self
  rw [heq, hself] at hlt
  cases hlt

theorem nodup_toList [Std.LawfulEqOrd κ] (m : SortedMap κ ν) : m.toList.Nodup :=
  List.Pairwise.of_map _ (fun _ _ hne heq => hne (congrArg Prod.fst heq)) m.nodup_keys

section Lawful

variable [Std.TransOrd κ] [Std.LawfulEqOrd κ]

theorem lookup_of_mem {k : κ} {v : ν} {l : List (κ × ν)}
    (hl : l.Pairwise fun a b => compare a.1 b.1 = .lt) (h : (k, v) ∈ l) :
    lookup k l = some v := by
  induction l with
  | nil => simp at h
  | cons p rest ih =>
      have hrest := List.pairwise_cons.1 hl
      rcases List.mem_cons.1 h with rfl | h
      · simp [lookup]
      · have hlt := hrest.1 _ h
        have hne : compare k p.1 ≠ .eq := by
          rw [Std.OrientedCmp.gt_of_lt hlt]
          simp
        simp only [lookup, if_neg hne]
        exact ih hrest.2 h

/-- A look-up finds exactly the pairs of the list. -/
theorem get?_eq_some_iff {m : SortedMap κ ν} {k : κ} {v : ν} :
    m.get? k = some v ↔ (k, v) ∈ m.toList :=
  ⟨mem_of_lookup, lookup_of_mem m.ascending⟩

theorem get?_eq_none_iff {m : SortedMap κ ν} {k : κ} :
    m.get? k = none ↔ ∀ p ∈ m.toList, p.1 ≠ k := by
  constructor
  · rintro h ⟨k', v⟩ hp rfl
    rw [get?_eq_some_iff.2 hp] at h
    simp at h
  · intro h
    refine lookup_eq_none fun p hp heq => h p hp ?_
    exact (Std.LawfulEqCmp.eq_of_compare heq).symm

theorem lookup_insertPair (k k' : κ) (v : ν) (l : List (κ × ν)) :
    lookup k' (insertPair k v l) = if compare k' k = .eq then some v else lookup k' l := by
  induction l with
  | nil => simp [insertPair, lookup]
  | cons p rest ih =>
      obtain ⟨k₁, v₁⟩ := p
      simp only [insertPair]
      split
      · simp [lookup]
      · rename_i heq
        have : k = k₁ := Std.LawfulEqCmp.eq_of_compare heq
        subst this
        by_cases h : compare k' k = .eq <;> simp [lookup, h]
      · rename_i hgt
        by_cases h₁ : compare k' k₁ = .eq
        · have : k' = k₁ := Std.LawfulEqCmp.eq_of_compare h₁
          subst this
          have hne : compare k' k ≠ .eq := by
            rw [Std.OrientedCmp.lt_of_gt hgt]
            simp
          simp [lookup, hne]
        · simp [lookup, h₁, ih]

/-- After `insert`, key `k` has the new value and every other key its old one. -/
theorem get?_insert [DecidableEq κ] (m : SortedMap κ ν) (k k' : κ) (v : ν) :
    (m.insert k v).get? k' = if k' = k then some v else m.get? k' := by
  have h := lookup_insertPair k k' v m.toList
  simp only [Std.LawfulEqCmp.compare_eq_iff_eq] at h
  exact h

@[simp] theorem get?_insert_self [DecidableEq κ] (m : SortedMap κ ν) (k : κ) (v : ν) :
    (m.insert k v).get? k = some v := by
  simp [get?_insert]

theorem get?_insert_of_ne [DecidableEq κ] (m : SortedMap κ ν) {k k' : κ} (v : ν) (h : k' ≠ k) :
    (m.insert k v).get? k' = m.get? k' := by
  simp [get?_insert, h]

/-- A filtered map keeps the values that satisfy the test. -/
theorem get?_filter (m : SortedMap κ ν) (p : κ → ν → Bool) (k : κ) :
    (m.filter p).get? k = (m.get? k).filter (p k) := by
  cases hk : m.get? k with
  | none =>
      rw [get?_eq_none_iff] at hk
      simp only [Option.filter_none, get?_eq_none_iff]
      intro q hq
      exact hk q (List.mem_filter.1 hq).1
  | some v =>
      have hmem := get?_eq_some_iff.1 hk
      by_cases hp : p k v
      · simp only [Option.filter_some, if_pos hp, get?_eq_some_iff]
        exact List.mem_filter.2 ⟨hmem, hp⟩
      · simp only [Option.filter_some, if_neg hp, get?_eq_none_iff]
        rintro ⟨k', v'⟩ hq rfl
        obtain ⟨hq, hp'⟩ := List.mem_filter.1 hq
        rw [get?_eq_some_iff.2 hq] at hk
        cases hk
        exact hp hp'

/-- After `erase`, key `k` has no value and every other key its old one. -/
theorem get?_erase [DecidableEq κ] (m : SortedMap κ ν) (k k' : κ) :
    (m.erase k).get? k' = if k' = k then none else m.get? k' := by
  rw [erase, get?_filter]
  by_cases h : k' = k
  · subst h
    cases m.get? k' <;> simp [Option.filter]
  · have : compare k k' ≠ .eq := fun heq => h (Std.LawfulEqCmp.eq_of_compare heq).symm
    cases hm : m.get? k' <;> simp [Option.filter, h, this]

/-- After the keys of several things were erased, the key of none of them has a value. -/
theorem get?_foldl_erase [DecidableEq κ] {ι : Type} [DecidableEq ι] {f : ι → κ}
    (hf : ∀ {i j}, f i = f j → i = j) (is : List ι) (m : SortedMap κ ν) (i : ι) :
    (is.foldl (fun m j => m.erase (f j)) m).get? (f i) =
      if i ∈ is then none else m.get? (f i) := by
  induction is generalizing m with
  | nil => rfl
  | cons j is ih =>
      rw [List.foldl_cons, ih, get?_erase]
      by_cases hij : i = j
      · simp [hij]
      · simp [hij, mt hf hij]

/-- A map is determined by its look-ups. -/
theorem ext_get? {m m' : SortedMap κ ν} (h : ∀ k, m.get? k = m'.get? k) : m = m' := by
  have hmem : ∀ p, p ∈ m.toList ↔ p ∈ m'.toList := fun p => by
    rw [← get?_eq_some_iff (v := p.2), ← get?_eq_some_iff (v := p.2), h]
  suffices H : ∀ l l' : List (κ × ν),
      (l.Pairwise fun a b => compare a.1 b.1 = .lt) →
      (l'.Pairwise fun a b => compare a.1 b.1 = .lt) →
      (∀ p, p ∈ l ↔ p ∈ l') → l = l' from ext (H _ _ m.ascending m'.ascending hmem)
  intro l
  induction l with
  | nil =>
      intro l' _ _ hiff
      cases l' with
      | nil => rfl
      | cons q _ => exact absurd ((hiff q).2 (by simp)) (by simp)
  | cons p rest ih =>
      intro l' hl hl' hiff
      cases l' with
      | nil => exact absurd ((hiff p).1 (by simp)) (by simp)
      | cons q rest' =>
          have hp := List.pairwise_cons.1 hl
          have hq := List.pairwise_cons.1 hl'
          have hpq : p = q := by
            rcases List.mem_cons.1 ((hiff p).1 (by simp)) with hpq | hpin
            · exact hpq
            · rcases List.mem_cons.1 ((hiff q).2 (by simp)) with hqp | hqin
              · exact hqp.symm
              · have h1 := hq.1 p hpin
                have h2 := Std.OrientedCmp.gt_of_lt (hp.1 q hqin)
                rw [h1] at h2
                simp at h2
          subst hpq
          congr 1
          refine ih rest' hp.2 hq.2 fun r => ?_
          have hr := hiff r
          simp only [List.mem_cons] at hr
          constructor
          · intro hin
            rcases hr.1 (Or.inr hin) with rfl | hin'
            · have := hp.1 r hin
              simp at this
            · exact hin'
          · intro hin
            rcases hr.2 (Or.inr hin) with rfl | hin'
            · have := hq.1 r hin
              simp at this
            · exact hin'

theorem get?_foldl_insert [DecidableEq κ] (l : List (κ × ν)) (m : SortedMap κ ν) (k : κ)
    (hl : l.Pairwise fun a b => compare a.1 b.1 = .lt) :
    (l.foldl (fun m p => m.insert p.1 p.2) m).get? k = (lookup k l).or (m.get? k) := by
  induction l generalizing m with
  | nil => simp [lookup]
  | cons p rest ih =>
      have hp := List.pairwise_cons.1 hl
      rw [List.foldl_cons, ih _ hp.2, get?_insert]
      by_cases h : k = p.1
      · subst h
        have : lookup p.1 rest = none := lookup_eq_none fun q hq => by
          rw [hp.1 q hq]
          simp
        simp [lookup, this]
      · have : compare k p.1 ≠ .eq := fun heq => h (Std.LawfulEqCmp.eq_of_compare heq)
        simp [lookup, h, this]

/-- The pairs of a map make up that map. -/
@[simp] theorem ofList_toList [DecidableEq κ] (m : SortedMap κ ν) : ofList m.toList = m := by
  refine ext_get? fun k => ?_
  rw [ofList, get?_foldl_insert _ _ _ m.ascending, get?_empty, Option.or_none, get?]

/-- Of the pairs in a list with one key the last counts. -/
theorem get?_ofList [DecidableEq κ] (l : List (κ × ν)) (k : κ) :
    (ofList l).get? k = (l.filter (·.1 = k)).getLast?.map (·.2) := by
  suffices H : ∀ m : SortedMap κ ν, (l.foldl (fun m p => m.insert p.1 p.2) m).get? k =
      ((l.filter (·.1 = k)).getLast?.map (·.2)).or (m.get? k) by
    have hall := H ∅
    rwa [get?_empty, Option.or_none] at hall
  induction l with
  | nil => exact fun m => rfl
  | cons p rest ih =>
      intro m
      rw [List.foldl_cons, ih, get?_insert, List.filter_cons]
      by_cases hk : k = p.1
      · subst hk
        rw [if_pos rfl, if_pos (decide_eq_true rfl), List.getLast?_cons]
        cases (rest.filter (·.1 = p.1)).getLast? <;> rfl
      · rw [if_neg hk, if_neg (by simpa using fun h => hk h.symm)]

/-- What the map of a list has is in the list. -/
theorem mem_of_get?_ofList [DecidableEq κ] {l : List (κ × ν)} {k : κ} {v : ν}
    (h : (ofList l).get? k = some v) : (k, v) ∈ l := by
  rw [get?_ofList] at h
  obtain ⟨⟨k', v'⟩, hlast, rfl⟩ := Option.map_eq_some_iff.1 h
  obtain ⟨hmem, hkey⟩ := List.mem_filter.1 (List.mem_of_getLast? hlast)
  obtain rfl : k' = k := of_decide_eq_true hkey
  exact hmem

/-- The map of a list has a value for every key in the list. -/
theorem exists_get?_ofList [DecidableEq κ] {l : List (κ × ν)} {k : κ} {v : ν} (h : (k, v) ∈ l) :
    ∃ v', (ofList l).get? k = some v' := by
  have hmem : (k, v) ∈ l.filter (·.1 = k) := List.mem_filter.2 ⟨h, decide_eq_true rfl⟩
  rw [get?_ofList, List.getLast?_eq_some_getLast (List.ne_nil_of_mem hmem)]
  exact ⟨_, rfl⟩

/-! ## Pairs and keys after each operation -/

theorem mem_keys {m : SortedMap κ ν} {k : κ} : k ∈ m.keys ↔ ∃ v, m.get? k = some v := by
  unfold keys
  simp only [List.mem_map, get?_eq_some_iff, Prod.exists]
  constructor
  · rintro ⟨k', v, hmem, rfl⟩
    exact ⟨v, hmem⟩
  · rintro ⟨v, hmem⟩
    exact ⟨k, v, hmem, rfl⟩

variable [DecidableEq κ]

theorem erase_insert (m : SortedMap κ ν) (k : κ) (v : ν) :
    (m.insert k v).erase k = m.erase k := by
  refine ext_get? fun k' => ?_
  rw [get?_erase, get?_erase, get?_insert]
  split <;> rfl

theorem erase_of_get?_eq_none {m : SortedMap κ ν} {k : κ} (h : m.get? k = none) :
    m.erase k = m := by
  refine ext_get? fun k' => ?_
  rw [get?_erase]
  split
  · rename_i hk
    rw [hk, h]
  · rfl

/-- The pairs of a map are any one of them and those of the map without it. -/
theorem toList_perm_of_get? {m : SortedMap κ ν} {k : κ} {v : ν} (h : m.get? k = some v) :
    m.toList.Perm ((k, v) :: (m.erase k).toList) := by
  have hfresh : (k, v) ∉ (m.erase k).toList := by
    rw [← get?_eq_some_iff, get?_erase, if_pos rfl]
    simp
  refine (List.perm_ext_iff_of_nodup m.nodup_toList
    (List.nodup_cons.2 ⟨hfresh, (m.erase k).nodup_toList⟩)).2 fun p => ?_
  rw [List.mem_cons, ← get?_eq_some_iff, ← get?_eq_some_iff, get?_erase]
  by_cases hk : p.1 = k
  · rw [if_pos hk, hk, h]
    simp [Prod.ext_iff, hk, eq_comm]
  · rw [if_neg hk]
    simp [Prod.ext_iff, hk]

theorem toList_insert_perm (m : SortedMap κ ν) (k : κ) (v : ν) :
    (m.insert k v).toList.Perm ((k, v) :: (m.erase k).toList) := by
  rw [← erase_insert m k v]
  exact toList_perm_of_get? (get?_insert_self m k v)

/-- A new value at a key that is in use leaves the keys as they are. -/
theorem keys_insert_of_mem {m : SortedMap κ ν} {k : κ} (h : k ∈ m.keys) (v : ν) :
    (m.insert k v).keys = m.keys := by
  obtain ⟨old, hold⟩ := mem_keys.1 h
  have hperm : (m.insert k v).keys.Perm m.keys :=
    ((toList_insert_perm m k v).map _).trans ((toList_perm_of_get? hold).map Prod.fst).symm
  refine hperm.eq_of_pairwise
    (fun a b _ _ (hab : compare a b = .lt) (hba : compare b a = .lt) => ?_)
    (List.pairwise_map.2 (m.insert k v).ascending) (List.pairwise_map.2 m.ascending)
  rw [Std.OrientedCmp.gt_of_lt hab] at hba
  cases hba

end Lawful

end SortedMap

end StakeRegistry
