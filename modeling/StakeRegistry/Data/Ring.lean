/-!
# Queues in a ring of slots

A queue whose items lie in a ring of slots. Items are added behind and taken off the front, and
a queue that reaches the last slot goes on at the first one, so its items lie in two runs, of
which the second may be empty (`Ring.runs`). A full ring grows.

To its user a queue is the list of its items (`toList_push`, `toList_drop`). The place of the
items matters to one operation only: `Ring.countLeading` counts the items with a property by
halving one of the two runs. When the items with the property come first, that is their number
(`countLeading_eq`).
-/

set_option autoImplicit false

namespace StakeRegistry

variable {α : Type}

/-! ## Halving -/

/-- Halves the `size` items from position `base` on until one is left, and answers its position:
the upper half is kept when its first item has the property. `steps` bounds the halvings. -/
def bisectFrom (p : α → Bool) (l : List α) : Nat → Nat → Nat → Nat
  | 0, base, _ => base
  | steps + 1, base, size =>
      if size ≤ 1 then base
      else
        let middle := base + size / 2
        bisectFrom p l steps (if l[middle]?.any p then middle else base) (size - size / 2)

/-- The number of items with a property, where those come first. -/
def bisect (p : α → Bool) (l : List α) : Nat :=
  let base := bisectFrom p l l.length 0 l.length
  if l[base]?.any p then base + 1 else base

/-- The items at positions below `k`, and no others, have the property. -/
def HoldsBelow (p : α → Bool) (l : List α) (k : Nat) : Prop :=
  ∀ i : Nat, l[i]?.any p = true ↔ i < k

theorem HoldsBelow.le_length {p : α → Bool} {l : List α} {k : Nat} (h : HoldsBelow p l k) :
    k ≤ l.length := by
  have hend : ¬ l.length < k := by
    rw [← h l.length]
    simp
  omega

/-- The position that halving ends at lies below `k`, if it is not the first one, and `k` lies
at most one above it. -/
theorem bisectFrom_bounds {p : α → Bool} {l : List α} {k : Nat} (h : HoldsBelow p l k)
    (steps base size : Nat) (hsteps : size ≤ steps + 1) (hbase : base = 0 ∨ base < k)
    (hk : k ≤ base + size) :
    (bisectFrom p l steps base size = 0 ∨ bisectFrom p l steps base size < k) ∧
      k ≤ bisectFrom p l steps base size + 1 := by
  induction steps generalizing base size with
  | zero =>
      simp only [bisectFrom]
      exact ⟨hbase, by omega⟩
  | succ steps ih =>
      simp only [bisectFrom]
      split
      · exact ⟨hbase, by omega⟩
      · by_cases hm : l[base + size / 2]?.any p = true
        · have hlt : base + size / 2 < k := (h _).1 hm
          rw [if_pos hm]
          exact ih _ _ (by omega) (Or.inr hlt) (by omega)
        · have hge : ¬ base + size / 2 < k := fun hlt => hm ((h _).2 hlt)
          rw [if_neg hm]
          exact ih _ _ (by omega) hbase (by omega)

theorem bisect_eq {p : α → Bool} {l : List α} {k : Nat} (h : HoldsBelow p l k) :
    bisect p l = k := by
  have hbounds := bisectFrom_bounds h l.length 0 l.length (by omega) (Or.inl rfl)
    (by have := h.le_length; omega)
  simp only [bisect]
  split
  · rename_i hp
    have hlt := (h _).1 hp
    omega
  · rename_i hp
    have hge : ¬ bisectFrom p l l.length 0 l.length < k := fun hlt => hp ((h _).2 hlt)
    omega

/-! ## The ring -/

/-- A queue in a ring: its items, the first one in front; the number of slots; and the slot of
the first item. -/
structure Ring (α : Type) where
  toList : List α
  slots : Nat
  start : Nat
  length_le : toList.length ≤ slots
  start_lt : start < max slots 1
  deriving DecidableEq

namespace Ring

/-- The queue without items or slots. -/
def empty : Ring α := ⟨[], 0, 0, by simp, by simp⟩

instance : Inhabited (Ring α) := ⟨empty⟩

def length (q : Ring α) : Nat := q.toList.length

/-- The fewest slots of a ring that has any. -/
def fewestSlots : Nat := 4

/-- The ring with twice the slots. Where there are two runs the second moves behind the first
if it is the shorter one; otherwise the first moves to the end of the ring. -/
def grow (q : Ring α) : Ring α where
  toList := q.toList
  slots := max (2 * q.slots) fewestSlots
  start :=
    if q.start = 0 ∨ 2 * q.start < q.slots then q.start
    else q.start + (max (2 * q.slots) fewestSlots - q.slots)
  length_le := by
    have := q.length_le
    omega
  start_lt := by
    have := q.start_lt
    simp only [fewestSlots]
    split <;> omega

/-- The ring with a slot to spare. -/
def withRoom (q : Ring α) : Ring α := if q.length = q.slots then q.grow else q

theorem length_lt_slots_withRoom (q : Ring α) : q.withRoom.length < q.withRoom.slots := by
  have hle := q.length_le
  simp only [withRoom]
  split
  · rename_i hfull
    simp only [grow, length, fewestSlots] at hfull ⊢
    omega
  · rename_i hroom
    simp only [length] at hroom ⊢
    omega

/-- Adds an item behind the others. -/
def push (q : Ring α) (a : α) : Ring α :=
  { q.withRoom with
    toList := q.withRoom.toList ++ [a]
    length_le := by
      have := q.length_lt_slots_withRoom
      simp only [length] at this
      simp
      omega }

/-- Takes the first `n` items off the front. -/
def drop (q : Ring α) (n : Nat) : Ring α where
  toList := q.toList.drop n
  slots := q.slots
  start := (q.start + min n q.length) % max q.slots 1
  length_le := by
    have := q.length_le
    simp
    omega
  start_lt := Nat.mod_lt _ (by omega)

/-- Takes every item off, and begins again at the first slot. -/
def clear (q : Ring α) : Ring α := ⟨[], q.slots, 0, by simp, by omega⟩

/-- The queue to which the items of a list were added in order. -/
def ofList (l : List α) : Ring α := l.foldl push empty

@[simp] theorem toList_empty : (empty : Ring α).toList = [] := rfl

@[simp] theorem toList_withRoom (q : Ring α) : q.withRoom.toList = q.toList := by
  simp only [withRoom]
  split <;> rfl

@[simp] theorem toList_push (q : Ring α) (a : α) : (q.push a).toList = q.toList ++ [a] := by
  simp [push]

@[simp] theorem toList_drop (q : Ring α) (n : Nat) : (q.drop n).toList = q.toList.drop n := rfl

@[simp] theorem toList_clear (q : Ring α) : q.clear.toList = [] := rfl

@[simp] theorem toList_ofList (l : List α) : (ofList l).toList = l := by
  have hfold : ∀ q : Ring α, (l.foldl push q).toList = q.toList ++ l := by
    induction l with
    | nil => simp
    | cons a l ih =>
        intro q
        simp [ih]
  simp [ofList, hfold]

/-! ## The two runs -/

/-- The items up to the last slot, and those from the first slot on. -/
def runs (q : Ring α) : List α × List α := q.toList.splitAt (q.slots - q.start)

theorem append_runs (q : Ring α) : q.runs.1 ++ q.runs.2 = q.toList := by
  simp [runs]

/-- The number of items with a property, where those come first: counted in the second run if
its first item has the property, else in the first run. -/
def countLeading (p : α → Bool) (q : Ring α) : Nat :=
  if q.runs.2.head?.any p then q.runs.1.length + bisect p q.runs.2 else bisect p q.runs.1

theorem countLeading_eq {p : α → Bool} {q : Ring α} {k : Nat} (h : HoldsBelow p q.toList k) :
    q.countLeading p = k := by
  have happ := q.append_runs
  simp only [countLeading]
  generalize q.runs.1 = front at happ ⊢
  generalize q.runs.2 = back at happ ⊢
  rw [← happ] at h
  have hfirst : back.head?.any p = true ↔ front.length < k := by
    rw [← h front.length, List.getElem?_append_right (by omega), Nat.sub_self,
      List.head?_eq_getElem?]
  split
  · rename_i hp
    have hlt := hfirst.1 hp
    have hb : HoldsBelow p back (k - front.length) := by
      intro i
      have hi := h (front.length + i)
      rw [List.getElem?_append_right (by omega), Nat.add_sub_cancel_left] at hi
      rw [hi]
      omega
    rw [bisect_eq hb]
    omega
  · rename_i hp
    have hge : ¬ front.length < k := fun hlt => hp (hfirst.2 hlt)
    refine bisect_eq fun i => ?_
    by_cases hi : i < front.length
    · have := h i
      rwa [List.getElem?_append_left hi] at this
    · have hnone : front[i]? = none := by simp; omega
      rw [hnone]
      simp
      omega

end Ring

end StakeRegistry
