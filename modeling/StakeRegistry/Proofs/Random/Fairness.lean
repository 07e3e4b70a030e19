import Mathlib.Data.List.Permutation
import Mathlib.Data.Set.Card
import Mathlib.Logic.Equiv.Basic
import Mathlib.Order.Interval.Set.Nat
import StakeRegistry.Proofs.Random.Acceptance

/-!
# Shuffles are unbiased

A draw gives every value below its bound for equally many of the words that it accepts. A shuffle
makes one draw for each position behind the first one, and the last draw is the place that the last
item gets; the swap undone, the draws before have ordered the other items. So every order of
distinct items comes out for one choice of the draws, and for one only. Main statements:

* `ncard_accepted`: how many words give a value;
* `exists_draws`, `draws_unique`: an order tells the draws that it comes from;
* `shuffle_unbiased`: both together, for shuffles by the generator.
-/

set_option autoImplicit false

namespace StakeRegistry

/-! ## One draw -/

/-- Of the accepted words as many give one value as another. -/
theorem ncard_accepted {n value : Nat} (hsome : 0 < n) (hn : n ≤ maxU64) (hvalue : value < n) :
    {w : UInt64 | w.toNat < acceptLimit n ∧ w.toNat / runLength n = value}.ncard =
      maxU64 / n := by
  rw [acceptLimit_eq, runLength_eq hsome]
  generalize hrun : maxU64 / n = run
  have hpos : 0 < run := hrun ▸ Nat.div_pos hn hsome
  have hnext : (value + 1) * run ≤ n * run := Nat.mul_le_mul_right run hvalue
  have hlimit : n * run ≤ maxU64 := hrun ▸ Nat.mul_div_le maxU64 n
  have htoNat {k : Nat} (hk : k < (value + 1) * run) : (UInt64.ofNat k).toNat = k := by
    refine UInt64.toNat_ofNat_of_lt' ?_
    unfold maxU64 at hlimit
    rw [UInt64.size]
    omega
  have hwords : {w : UInt64 | w.toNat < n * run ∧ w.toNat / run = value} =
      UInt64.ofNat '' Set.Ico (value * run) ((value + 1) * run) := by
    ext w
    constructor
    · rintro ⟨-, hgives⟩
      refine ⟨w.toNat, ⟨?_, ?_⟩, UInt64.ofNat_toNat⟩
      · exact (Nat.le_div_iff_mul_le hpos).1 hgives.ge
      · exact (Nat.div_lt_iff_lt_mul hpos).1 (hgives ▸ Nat.lt_succ_self _)
    · rintro ⟨k, ⟨hlow, hhigh⟩, rfl⟩
      refine ⟨?_, ?_⟩
      · rw [htoNat hhigh]
        omega
      · rw [htoNat hhigh]
        exact Nat.div_eq_of_lt_le hlow hhigh
  have hinj : Set.InjOn UInt64.ofNat (Set.Ico (value * run) ((value + 1) * run)) := by
    rintro k ⟨-, hk⟩ k' ⟨-, hk'⟩ h
    rw [← htoNat hk, h, htoNat hk']
  rw [hwords, hinj.ncard_image, Set.ncard_Ico_nat, Nat.add_mul, Nat.one_mul,
    Nat.add_sub_cancel_left]

variable {α : Type}

/-! ## One swap -/

section Swap

variable {items : List α} {i j : Nat}

theorem length_swapItems (items : List α) (i j : Nat) :
    (swapItems items i j).length = items.length := (swapItems_perm items i j).length_eq

theorem swapItems_eq (hi : i < items.length) (hj : j < items.length) :
    swapItems items i j = (items.set i items[j]).set j items[i] := by
  unfold swapItems
  rw [List.getElem?_eq_getElem hi, List.getElem?_eq_getElem hj]

/-- A swap exchanges the items of two positions. -/
theorem getElem?_swapItems (hi : i < items.length) (hj : j < items.length) (k : Nat) :
    (swapItems items i j)[k]? = items[Equiv.swap i j k]? := by
  rw [swapItems_eq hi hj, List.getElem?_set, List.getElem?_set, Equiv.swap_apply_def]
  by_cases hkj : j = k
  · subst hkj
    by_cases hij : j = i
    · simp [hij, hi]
    · simp [hij, hi, hj]
  · by_cases hki : i = k
    · subst hki
      simp [hkj, hi, hj]
    · simp [hkj, hki, Ne.symm hkj, Ne.symm hki]

/-- Swapping again undoes a swap. -/
theorem swapItems_swapItems (hi : i < items.length) (hj : j < items.length) :
    swapItems (swapItems items i j) i j = items := by
  refine List.ext_getElem? fun k => ?_
  rw [getElem?_swapItems (by rwa [length_swapItems]) (by rwa [length_swapItems]),
    getElem?_swapItems hi hj, Equiv.swap_apply_self]

/-- Items behind the swapped ones stay. -/
theorem swapItems_concat (x : α) (hi : i < items.length) (hj : j < items.length) :
    swapItems (items ++ [x]) i j = swapItems items i j ++ [x] := by
  have hi' : i < (items ++ [x]).length := by simp; omega
  have hj' : j < (items ++ [x]).length := by simp; omega
  rw [swapItems_eq hi' hj', swapItems_eq hi hj, List.getElem_append_left hi,
    List.getElem_append_left hj, List.set_append_left _ _ hi,
    List.set_append_left _ _ (by rwa [List.length_set])]

end Swap

/-! ## Draws for a shuffle -/

/-- Positions that the swaps of a shuffle from position `i` on may draw: `i` or an earlier one,
then `i + 1` or an earlier one, and so on. -/
def DrawsFrom : Nat → List Nat → Prop
  | _, [] => True
  | i, j :: js => j ≤ i ∧ DrawsFrom (i + 1) js

theorem drawsFrom_concat_iff {i j : Nat} {js : List Nat} :
    DrawsFrom i (js ++ [j]) ↔ DrawsFrom i js ∧ j ≤ i + js.length := by
  induction js generalizing i with
  | nil => simp [DrawsFrom]
  | cons k js ih =>
      rw [List.cons_append, DrawsFrom, DrawsFrom, ih, List.length_cons, and_assoc]
      rw [show i + 1 + js.length = i + (js.length + 1) by omega]

theorem drawsFrom_drawSwaps (i count : Nat) (g : Twister) :
    DrawsFrom i (drawSwaps i count g).1 := by
  induction count generalizing i g with
  | zero => trivial
  | succ count ih =>
      exact ⟨Nat.le_of_lt_succ (drawBelow_lt (Nat.succ_pos i) g), ih (i + 1) _⟩

theorem length_drawSwaps (i count : Nat) (g : Twister) :
    (drawSwaps i count g).1.length = count := by
  induction count generalizing i g with
  | zero => rfl
  | succ count ih => exact congrArg Nat.succ (ih (i + 1) _)

/-- The draws of a shuffle end with that for the last position. -/
theorem swapAlong_concat (items : List α) (i : Nat) (js : List Nat) (j : Nat) :
    swapAlong items i (js ++ [j]) = swapItems (swapAlong items i js) (i + js.length) j := by
  induction js generalizing items i with
  | nil => rfl
  | cons k js ih =>
      rw [List.cons_append, swapAlong, ih, swapAlong, List.length_cons]
      rw [show i + 1 + js.length = i + (js.length + 1) by omega]

/-- Until then the last item keeps its place. -/
theorem swapAlong_append_item {items : List α} {i : Nat} {js : List Nat} (x : α)
    (hdraws : DrawsFrom i js) (hlength : i + js.length ≤ items.length) :
    swapAlong (items ++ [x]) i js = swapAlong items i js ++ [x] := by
  induction js generalizing items i with
  | nil => rfl
  | cons j js ih =>
      rw [List.length_cons] at hlength
      have hj : j ≤ i := hdraws.1
      rw [swapAlong, swapItems_concat x (by omega) (by omega), ih hdraws.2 (by
        rw [length_swapItems]; omega), swapAlong]

section LastDraw

variable {items : List α} {js : List Nat} {j : Nat}

/-- The last draw of a shuffle brings the last item to its place, and the item from there to the
end. -/
theorem swapAlong_last (x : α) (hdraws : DrawsFrom 1 (js ++ [j]))
    (hlength : js.length + 1 = items.length) :
    swapAlong (items ++ [x]) 1 (js ++ [j]) =
      swapItems (swapAlong items 1 js ++ [x]) items.length j := by
  rw [swapAlong_concat, swapAlong_append_item x (drawsFrom_concat_iff.1 hdraws).1 (by omega),
    Nat.add_comm, hlength]

/-- Before the last swap the last item is at the end, and the place that it gets is in the list. -/
theorem length_before_last (x : α) (hdraws : DrawsFrom 1 (js ++ [j]))
    (hlength : js.length + 1 = items.length) :
    (swapAlong items 1 js ++ [x])[items.length]? = some x ∧
      items.length < (swapAlong items 1 js ++ [x]).length ∧
      j < (swapAlong items 1 js ++ [x]).length := by
  have hfront : (swapAlong items 1 js).length = items.length :=
    (swapAlong_perm items 1 js).length_eq
  have hj := (drawsFrom_concat_iff.1 hdraws).2
  rw [List.length_append, hfront, List.length_singleton]
  refine ⟨?_, by omega, by omega⟩
  rw [← hfront, List.getElem?_concat_length]

/-- The last draw is the place that the last item gets. -/
theorem getElem?_swapAlong_last (x : α) (hdraws : DrawsFrom 1 (js ++ [j]))
    (hlength : js.length + 1 = items.length) :
    (swapAlong (items ++ [x]) 1 (js ++ [j]))[j]? = some x := by
  obtain ⟨hend, hlast, hj⟩ := length_before_last x hdraws hlength
  rw [swapAlong_last x hdraws hlength, getElem?_swapItems hlast hj, Equiv.swap_apply_right, hend]

/-- The last swap undone, the other items stand as the draws before have left them. -/
theorem swapItems_swapAlong_last (x : α) (hdraws : DrawsFrom 1 (js ++ [j]))
    (hlength : js.length + 1 = items.length) :
    swapItems (swapAlong (items ++ [x]) 1 (js ++ [j])) items.length j =
      swapAlong items 1 js ++ [x] := by
  obtain ⟨-, hlast, hj⟩ := length_before_last x hdraws hlength
  rw [swapAlong_last x hdraws hlength, swapItems_swapItems hlast hj]

end LastDraw

/-- Every order of some items comes out of a shuffle. -/
theorem exists_draws {first : α} {rest order : List α} (h : order.Perm (first :: rest)) :
    ∃ js, js.length = rest.length ∧ DrawsFrom 1 js ∧ swapAlong (first :: rest) 1 js = order := by
  induction rest using List.reverseRecOn generalizing order with
  | nil => exact ⟨[], rfl, trivial, (List.perm_singleton.1 h).symm⟩
  | append_singleton rest x ih =>
      rw [← List.cons_append] at h
      generalize hitems : first :: rest = items at *
      have hsize : items.length = rest.length + 1 := by rw [← hitems, List.length_cons]
      have hcount : order.length = items.length + 1 := by simpa using h.length_eq
      -- The last item of the list stands somewhere; the last swap is the one that brings it there.
      obtain ⟨j, hj, hx⟩ := List.getElem_of_mem (h.mem_iff.2 (List.mem_concat_self))
      have hlast : items.length < order.length := by omega
      have hend : (swapItems order items.length j)[items.length]? = some x := by
        rw [getElem?_swapItems hlast hj, Equiv.swap_apply_left, List.getElem?_eq_getElem hj, hx]
      obtain ⟨before, hbefore⟩ : ∃ before, swapItems order items.length j = before ++ [x] := by
        have hgetLast : (swapItems order items.length j).getLast? = some x := by
          rw [List.getLast?_eq_getElem?, length_swapItems, hcount, Nat.add_sub_cancel, hend]
        exact ⟨_, (List.dropLast_append_getLast? x hgetLast).symm⟩
      have hperm : before.Perm items := by
        refine (List.perm_append_right_iff [x]).1 ?_
        rw [← hbefore]
        exact (swapItems_perm order _ _).trans h
      obtain ⟨js, hlength, hdraws, hjs⟩ := ih hperm
      have hdraws' : DrawsFrom 1 (js ++ [j]) := drawsFrom_concat_iff.2 ⟨hdraws, by omega⟩
      refine ⟨js ++ [j], by simp [hlength], hdraws', ?_⟩
      rw [← List.cons_append, hitems, swapAlong_last x hdraws' (by omega), hjs, ← hbefore,
        swapItems_swapItems hlast hj]

/-- Of distinct items every order comes out for one choice of the draws only. -/
theorem draws_unique {first : α} {rest : List α} {js ks : List Nat}
    (hdistinct : (first :: rest).Nodup) (hjs : js.length = rest.length)
    (hks : ks.length = rest.length) (hdrawsj : DrawsFrom 1 js) (hdrawsk : DrawsFrom 1 ks)
    (h : swapAlong (first :: rest) 1 js = swapAlong (first :: rest) 1 ks) : js = ks := by
  induction rest using List.reverseRecOn generalizing js ks with
  | nil =>
      rw [List.length_nil, List.length_eq_zero_iff] at hjs hks
      rw [hjs, hks]
  | append_singleton rest x ih =>
      rw [List.length_append, List.length_singleton] at hjs hks
      rcases js.eq_nil_or_concat' with rfl | ⟨js, j, rfl⟩
      · cases hjs
      rcases ks.eq_nil_or_concat' with rfl | ⟨ks, k, rfl⟩
      · cases hks
      rw [List.length_append, List.length_singleton] at hjs hks
      rw [← List.cons_append] at h hdistinct
      generalize hitems : first :: rest = items at *
      have hsize : items.length = rest.length + 1 := by rw [← hitems, List.length_cons]
      have hlengthj : js.length + 1 = items.length := by omega
      have hlengthk : ks.length + 1 = items.length := by omega
      have hj := getElem?_swapAlong_last x hdrawsj hlengthj
      have hk := getElem?_swapAlong_last x hdrawsk hlengthk
      have hsame : j = k := by
        have horder := (swapAlong_perm (items ++ [x]) 1 (js ++ [j])).nodup_iff.2 hdistinct
        refine (List.getElem?_inj (List.getElem?_eq_some_iff.1 hj).1 horder).1 ?_
        rw [hj, h, hk]
      subst hsame
      have hbefore := swapItems_swapAlong_last x hdrawsj hlengthj
      rw [h, swapItems_swapAlong_last x hdrawsk hlengthk] at hbefore
      rw [ih hdistinct.of_append_left (by omega) (by omega) (drawsFrom_concat_iff.1 hdrawsj).1
        (drawsFrom_concat_iff.1 hdrawsk).1 (List.append_cancel_right hbefore).symm]

/-! ## All orders -/

/-- The draws that a shuffle of some items can make: one for each position from the second on. -/
def drawVectors (count : Nat) : Set (List Nat) := {js | js.length = count - 1 ∧ DrawsFrom 1 js}

theorem bijOn_swapAlong {items : List α} (hdistinct : items.Nodup) :
    Set.BijOn (swapAlong items 1) (drawVectors items.length) {order | order.Perm items} := by
  cases items with
  | nil =>
      refine ⟨fun js _ => swapAlong_perm [] 1 js, ?_, ?_⟩
      · rintro js ⟨hjs, -⟩ ks ⟨hks, -⟩ -
        rw [List.length_eq_zero_iff.1 hjs, List.length_eq_zero_iff.1 hks]
      · intro order horder
        exact ⟨[], ⟨rfl, trivial⟩, (List.perm_nil.1 horder).symm⟩
  | cons first rest =>
      refine ⟨fun js _ => swapAlong_perm _ 1 js, ?_, ?_⟩
      · rintro js ⟨hjs, hdrawsj⟩ ks ⟨hks, hdrawsk⟩ h
        exact draws_unique hdistinct hjs hks hdrawsj hdrawsk h
      · intro order horder
        obtain ⟨js, hlength, hdraws, hjs⟩ := exists_draws horder
        exact ⟨js, ⟨hlength, hdraws⟩, hjs⟩

theorem ncard_orders {items : List α} (hdistinct : items.Nodup) :
    {order : List α | order.Perm items}.ncard = items.length.factorial := by
  classical
  have hset : {order : List α | order.Perm items} = ↑items.permutations.toFinset := by
    ext order
    simp
  rw [hset, Set.ncard_coe_finset, List.toFinset_card_of_nodup (List.nodup_permutations _ hdistinct),
    List.length_permutations]

/-- **Unbiased**: the map from the possible draws of a shuffle of distinct items to the orders of
the items is a bijection, onto all the orders that there are, and a shuffle by a generator goes by
possible draws. A draw below two or more gives each value below its bound for equally many words of
those that it accepts; whatever the generator, it answers by the first word that it accepts, with
one of these values. -/
theorem shuffle_unbiased :
    (∀ {α : Type} {items : List α}, items.Nodup →
      Set.BijOn (swapAlong items 1) (drawVectors items.length) {order | order.Perm items} ∧
      {order : List α | order.Perm items}.ncard = items.length.factorial ∧
      ∀ g, ∃ js ∈ drawVectors items.length, (drawSwaps 1 (items.length - 1) g).1 = js ∧
        (shuffle items g).1 = swapAlong items 1 js) ∧
    ∀ {n : Nat}, 2 ≤ n → n ≤ maxU64 →
      (∀ value < n, {w : UInt64 | w.toNat < acceptLimit n ∧
        w.toNat / runLength n = value}.ncard = maxU64 / n) ∧
      ∀ g : Twister, (drawBelow n g).1 < n ∧
        ∃ rejected ≤ 19968, (∀ draws < rejected, acceptLimit n ≤ (g.output draws).toNat) ∧
          (g.output rejected).toNat < acceptLimit n ∧
          drawBelow n g = ((g.output rejected).toNat / runLength n, g.advance (rejected + 1)) := by
  constructor
  · intro α items hdistinct
    refine ⟨bijOn_swapAlong hdistinct, ncard_orders hdistinct, fun g => ⟨_, ?_, rfl, rfl⟩⟩
    exact ⟨length_drawSwaps 1 _ g, drawsFrom_drawSwaps 1 _ g⟩
  · intro n htwo hn
    have hsome : 0 < n := Nat.lt_of_succ_le (Nat.le_of_succ_le htwo)
    exact ⟨fun value hvalue => ncard_accepted hsome hn hvalue,
      fun g => ⟨drawBelow_lt hsome g, exists_drawBelow_eq htwo hn g⟩⟩

/-- Three items have six orders, one for each of the six pairs of draws, and a third of the accepted
words gives each of three values. -/
theorem shuffle_unbiased_three :
    Set.BijOn (swapAlong [7, 8, 9] 1) (drawVectors 3) {order | order.Perm [7, 8, 9]} ∧
      {order : List Nat | order.Perm [7, 8, 9]}.ncard = 6 ∧
      {w : UInt64 | w.toNat < acceptLimit 3 ∧ w.toNat / runLength 3 = 2}.ncard =
        0x5555555555555555 := by
  obtain ⟨horders, hwords⟩ := shuffle_unbiased
  obtain ⟨hbijective, hcount, -⟩ := horders (show [7, 8, 9].Nodup by decide)
  exact ⟨hbijective, hcount, (hwords (n := 3) (by decide) (by decide)).1 2 (by decide)⟩

end StakeRegistry
