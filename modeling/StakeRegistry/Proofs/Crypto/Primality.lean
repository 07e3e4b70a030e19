import Mathlib.NumberTheory.LucasPrimality
import Mathlib.Tactic.NormNum.Prime
import StakeRegistry.Crypto.Edwards

/-!
# Two primes

The orders of the field and of the base point are prime. A number `p` is prime if some residue has
order `p - 1`. That is checked by a few powers once the prime factors of `p - 1` are known
(`prime_of_root`), and these are shown to be prime the same way, until they are small.
-/

set_option autoImplicit false

namespace StakeRegistry

/-- The power of `a` modulo `m` whose exponent the `bits` lowest bits of `n` write. -/
def powMod (m : Nat) : Nat → Nat → Nat → Nat
  | 0, _, _ => 1 % m
  | bits + 1, a, n =>
      let squares := powMod m bits (a * a % m) (n / 2)
      if n % 2 = 1 then squares * a % m else squares

theorem powMod_eq (m bits a n : Nat) (h : n < 2 ^ bits) : powMod m bits a n = a ^ n % m := by
  induction bits generalizing a n with
  | zero =>
      have hzero : n = 0 := by simpa using h
      rw [hzero]
      rfl
  | succ bits ih =>
      have hhalf : n / 2 < 2 ^ bits := by omega
      have hsquares : (a * a % m) ^ (n / 2) % m = a ^ (2 * (n / 2)) % m := by
        rw [← Nat.pow_mod, ← pow_two, ← pow_mul]
      unfold powMod
      dsimp only
      rw [ih _ _ hhalf, hsquares]
      split
      · rename_i hodd
        calc a ^ (2 * (n / 2)) % m * a % m
            = a ^ (2 * (n / 2) + 1) % m := by rw [Nat.mod_mul_mod, ← pow_succ]
          _ = a ^ n % m := by rw [show 2 * (n / 2) + 1 = n by omega]
      · rw [show 2 * (n / 2) = n by omega]

theorem natCast_pow_eq_one_iff {p n : Nat} (hlarge : 1 < p) (hn : n < 2 ^ 256) (a : Nat) :
    (a : ZMod p) ^ n = 1 ↔ powMod p 256 a n = 1 := by
  rw [powMod_eq _ _ _ _ hn, ← Nat.cast_pow, ← Nat.cast_one, ZMod.natCast_eq_natCast_iff',
    Nat.mod_eq_of_lt hlarge]

/-- Whether a residue is checked to have order `p - 1`, which is the product of some prime powers:
no exponent smaller by one of the primes makes it one. -/
def IsRoot (p root : Nat) (factors : List (Nat × Nat)) : Prop :=
  1 < p ∧ p < 2 ^ 256 ∧ p - 1 = (factors.map fun f => f.1 ^ f.2).prod ∧
    powMod p 256 root (p - 1) = 1 ∧ ∀ f ∈ factors, powMod p 256 root ((p - 1) / f.1) ≠ 1

instance (p root : Nat) (factors : List (Nat × Nat)) : Decidable (IsRoot p root factors) :=
  inferInstanceAs (Decidable (_ ∧ _))

theorem prime_of_root {p : Nat} (root : Nat) (factors : List (Nat × Nat))
    (hprime : ∀ f ∈ factors, f.1.Prime) (hroot : IsRoot p root factors) : p.Prime := by
  obtain ⟨hlarge, hbits, hproduct, hfull, hproper⟩ := hroot
  have hbound : p - 1 < 2 ^ 256 := by omega
  refine lucas_primality p (root : ZMod p) ((natCast_pow_eq_one_iff hlarge hbound _).2 hfull) ?_
  intro q hq hdvd
  rw [hproduct] at hdvd
  obtain ⟨power, hpower, hdvd⟩ := (Prime.dvd_prod_iff hq.prime).1 hdvd
  obtain ⟨f, hf, rfl⟩ := List.mem_map.1 hpower
  have hqf : q = f.1 := (Nat.prime_dvd_prime_iff_eq hq (hprime f hf)).1 (hq.dvd_of_dvd_pow hdvd)
  rw [hqf, ne_eq, natCast_pow_eq_one_iff hlarge (lt_of_le_of_lt (Nat.div_le_self _ _) hbound)]
  exact hproper f hf

namespace Edwards

theorem prime_order : order.Prime := by
  have h₁ : Nat.Prime 31757755568855353 :=
    prime_of_root 10 [(2, 3), (3, 1), (31, 1), (107, 1), (223, 1), (4153, 1), (430751, 1)]
      (by norm_num) (by decide +kernel)
  have h₂ : Nat.Prime 2773320623 :=
    prime_of_root 5 [(2, 1), (2437, 1), (569003, 1)] (by norm_num) (by decide +kernel)
  have h₃ : Nat.Prime 72106336199 :=
    prime_of_root 7 [(2773320623, 1), (2, 1), (13, 1)] (List.forall_mem_cons.2 ⟨h₂, by norm_num⟩)
      (by decide +kernel)
  have h₄ : Nat.Prime 1919519569386763 :=
    prime_of_root 2 [(2, 1), (3, 1), (7, 1), (19, 1), (47, 2), (127, 1), (8574133, 1)]
      (by norm_num) (by decide +kernel)
  have h₅ : Nat.Prime 75445702479781427272750846543864801 :=
    prime_of_root 7
      [(72106336199, 1), (1919519569386763, 1), (2, 5), (3, 2), (5, 2), (75707, 1)]
      (List.forall_mem_cons.2 ⟨h₃, List.forall_mem_cons.2 ⟨h₄, by norm_num⟩⟩)
      (by decide +kernel)
  have h₆ : Nat.Prime
      74058212732561358302231226437062788676166966415465897661863160754340907 :=
    prime_of_root 2
      [(31757755568855353, 1), (75445702479781427272750846543864801, 1), (2, 1), (3, 1), (353, 1),
        (57467, 1), (132049, 1), (1923133, 1)]
      (List.forall_mem_cons.2 ⟨h₁, List.forall_mem_cons.2 ⟨h₅, by norm_num⟩⟩)
      (by decide +kernel)
  exact prime_of_root 2
    [(74058212732561358302231226437062788676166966415465897661863160754340907, 1), (2, 2), (3, 1),
      (65147, 1)]
    (List.forall_mem_cons.2 ⟨h₆, by norm_num⟩) (by decide +kernel)

theorem prime_groupOrder : groupOrder.Prime := by
  have h₁ : Nat.Prime 58964693 :=
    prime_of_root 2 [(2, 2), (14741173, 1)] (by norm_num) (by decide +kernel)
  have h₂ : Nat.Prime 3044861653679985063343 :=
    prime_of_root 5
      [(2, 1), (3, 1), (11, 1), (30703, 1), (82163, 1), (132667, 1), (137849, 1)]
      (by norm_num) (by decide +kernel)
  have h₃ : Nat.Prime 198211423230930754013084525763697 :=
    prime_of_root 5 [(58964693, 1), (3044861653679985063343, 1), (2, 4), (3, 1), (23, 1)]
      (List.forall_mem_cons.2 ⟨h₁, List.forall_mem_cons.2 ⟨h₂, by norm_num⟩⟩)
      (by decide +kernel)
  have h₄ : Nat.Prime 292386187 :=
    prime_of_root 2 [(2, 1), (3, 4), (307, 1), (5879, 1)] (by norm_num) (by decide +kernel)
  have h₅ : Nat.Prime 213441916511 :=
    prime_of_root 13 [(292386187, 1), (2, 1), (5, 1), (73, 1)]
      (List.forall_mem_cons.2 ⟨h₄, by norm_num⟩) (by decide +kernel)
  have h₆ : Nat.Prime 1257559732178653 :=
    prime_of_root 2 [(2, 2), (3, 1), (7, 1), (23, 1), (531581, 1), (1224481, 1)]
      (by norm_num) (by decide +kernel)
  have h₇ : Nat.Prime 4434155615661930479 :=
    prime_of_root 17 [(1257559732178653, 1), (2, 1), (41, 1), (43, 1)]
      (List.forall_mem_cons.2 ⟨h₆, by norm_num⟩) (by decide +kernel)
  have h₈ : Nat.Prime 172054593956031949258510691 :=
    prime_of_root 2 [(4434155615661930479, 1), (2, 1), (5, 1), (1361, 1), (2851, 1)]
      (List.forall_mem_cons.2 ⟨h₇, by norm_num⟩) (by decide +kernel)
  have h₉ : Nat.Prime 19757330305831588566944191468367130476339 :=
    prime_of_root 2 [(213441916511, 1), (172054593956031949258510691, 1), (2, 1), (269, 1)]
      (List.forall_mem_cons.2 ⟨h₅, List.forall_mem_cons.2 ⟨h₈, by norm_num⟩⟩)
      (by decide +kernel)
  have h₁₀ : Nat.Prime 276602624281642239937218680557139826668747 :=
    prime_of_root 2 [(19757330305831588566944191468367130476339, 1), (2, 1), (7, 1)]
      (List.forall_mem_cons.2 ⟨h₉, by norm_num⟩) (by decide +kernel)
  exact prime_of_root 2
    [(198211423230930754013084525763697, 1), (276602624281642239937218680557139826668747, 1),
      (2, 2), (3, 1), (11, 1)]
    (List.forall_mem_cons.2 ⟨h₃, List.forall_mem_cons.2 ⟨h₁₀, by norm_num⟩⟩) (by decide +kernel)

end Edwards

end StakeRegistry
