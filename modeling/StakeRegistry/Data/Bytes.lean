/-!
# Byte strings

Byte strings of a fixed length (keys, hashes, signatures), the numbers written in them
least significant byte first, and their bytewise order. The order is a lawful total order
(`Bytes.instTransOrd`, `Bytes.instLawfulEqOrd`), so byte strings can key a `SortedMap`, and
a number that fits the width it is written in reads back (`leNat_leBytes`).
-/

set_option autoImplicit false

namespace StakeRegistry

/-! ## Numbers as bytes -/

/-- The `w` lowest bytes of `n`, least significant first. -/
def leBytes : Nat → Nat → List UInt8
  | 0, _ => []
  | w + 1, n => UInt8.ofNat n :: leBytes w (n / 256)

/-- The number a byte string writes, least significant byte first. -/
def leNat : List UInt8 → Nat
  | [] => 0
  | b :: rest => b.toNat + 256 * leNat rest

@[simp] theorem length_leBytes (w n : Nat) : (leBytes w n).length = w := by
  induction w generalizing n with
  | zero => rfl
  | succ w ih => simp [leBytes, ih]

/-- A byte string of length `w` writes a number below `256 ^ w`. -/
theorem leNat_lt (bs : List UInt8) : leNat bs < Nat.pow 256 bs.length := by
  induction bs with
  | nil => decide
  | cons b rest ih =>
      have hb := b.toNat_lt
      have hpow : Nat.pow 256 (rest.length + 1) = Nat.pow 256 rest.length * 256 := rfl
      rw [List.length_cons, hpow, leNat]
      omega

/-- A number below `256 ^ w` is what its `w` bytes write. -/
theorem leNat_leBytes (w n : Nat) (h : n < Nat.pow 256 w) : leNat (leBytes w n) = n := by
  induction w generalizing n with
  | zero => simp at h; simp [leBytes, leNat, h]
  | succ w ih =>
      have hn : n / 256 < Nat.pow 256 w := by
        show n / 256 < 256 ^ w
        rw [Nat.div_lt_iff_lt_mul (by decide)]
        simpa [Nat.pow_succ] using h
      have hm : (UInt8.ofNat n).toNat = n % 256 := by simp
      simp only [leBytes, leNat, ih _ hn, hm]
      omega

/-- The bytes of the number a byte string writes are that byte string. -/
theorem leBytes_leNat (bs : List UInt8) : leBytes bs.length (leNat bs) = bs := by
  induction bs with
  | nil => rfl
  | cons b rest ih =>
      have hb := b.toNat_lt
      have hdiv : (b.toNat + 256 * leNat rest) / 256 = leNat rest := by omega
      have hbyte : UInt8.ofNat (b.toNat + 256 * leNat rest) = b := by
        apply UInt8.toNat.inj
        rw [UInt8.toNat_ofNat']
        omega
      simp only [List.length_cons, leBytes, leNat, hdiv, ih, hbyte]

/-! ## Byte strings of fixed length -/

/-- A byte string of exactly `n` bytes. -/
structure Bytes (n : Nat) where
  toList : List UInt8
  length_toList : toList.length = n
  deriving DecidableEq

namespace Bytes

attribute [simp] length_toList

variable {n : Nat}

@[ext] theorem ext {a b : Bytes n} (h : a.toList = b.toList) : a = b := by
  cases a
  cases b
  simp_all

/-- The byte string of `n` zeros, which stands for an unset field. -/
def zero (n : Nat) : Bytes n := ⟨List.replicate n 0, List.length_replicate⟩

instance : Inhabited (Bytes n) := ⟨zero n⟩

instance : OfNat (Bytes n) 0 := ⟨zero n⟩

/-- Reads a byte string of length `n`; any other length is refused. -/
def ofList? (n : Nat) (bs : List UInt8) : Option (Bytes n) :=
  if h : bs.length = n then some ⟨bs, h⟩ else none

/-- The first `n` bytes, zeros standing in for missing ones. -/
def ofListPad (n : Nat) (bs : List UInt8) : Bytes n :=
  ⟨(bs ++ List.replicate n 0).take n, by simp⟩

/-- The `n` lowest bytes of a number, least significant first. -/
def ofNatLE (n v : Nat) : Bytes n := ⟨leBytes n v, length_leBytes n v⟩

/-- The number a byte string writes, least significant byte first. -/
def toNatLE (b : Bytes n) : Nat := leNat b.toList

@[simp] theorem ofList?_toList (b : Bytes n) : ofList? n b.toList = some b := by
  simp [ofList?]

theorem ofList?_eq_some_iff {bs : List UInt8} {b : Bytes n} :
    ofList? n bs = some b ↔ bs = b.toList := by
  constructor
  · intro h
    simp only [ofList?] at h
    split at h
    · cases h
      rfl
    · simp at h
  · rintro rfl
    exact ofList?_toList b

/-! ## Bytewise order -/

instance : Ord (Bytes n) := ⟨fun a b => compare a.toList b.toList⟩

theorem compare_def (a b : Bytes n) : compare a b = compare a.toList b.toList := rfl

instance instOrientedOrd : Std.OrientedOrd (Bytes n) where
  eq_swap {a b} := @Std.OrientedCmp.eq_swap (List UInt8) compare _ a.toList b.toList

instance instTransOrd : Std.TransOrd (Bytes n) where
  isLE_trans {a b c} hab hbc :=
    @Std.TransCmp.isLE_trans (List UInt8) compare _ a.toList b.toList c.toList hab hbc

instance instLawfulEqOrd : Std.LawfulEqOrd (Bytes n) where
  eq_of_compare {_ _} h := ext (Std.LawfulEqCmp.eq_of_compare h)
  compare_self {a} := @Std.ReflCmp.compare_self (List UInt8) compare _ a.toList

/-! The widths of hashes and keys, which maps are ordered by. -/

instance : Std.TransOrd (Bytes 32) := instTransOrd

instance : Std.LawfulEqOrd (Bytes 32) := instLawfulEqOrd

instance : Std.TransOrd (Bytes 64) := instTransOrd

instance : Std.LawfulEqOrd (Bytes 64) := instLawfulEqOrd

end Bytes

end StakeRegistry
