import StakeRegistry.Stored.Registry

/-!
# Stored data reads back

A codec is lawful if it reads back whatever it writes of a value that fits, and leaves alone
what comes after it (`Codec.Lawful`). Every layout of stored registries is, since the
combinators keep the law; so whole snapshots read back (`StoredData.read?_encode`).
-/

set_option autoImplicit false

namespace StakeRegistry

namespace Codec

variable {α β : Type}

/-- What is written of a value that fits reads back, whatever comes after it. -/
class Lawful (c : Codec α) : Prop where
  decode_encode : ∀ (a : α) (rest : List UInt8), c.Fits a →
    c.decode (c.encode a ++ rest) = some (a, rest)

theorem Lawful.read?_encode (c : Codec α) [c.Lawful] {a : α} (h : c.Fits a) :
    c.read? (c.encode a) = some a := by
  have hdecode := Lawful.decode_encode a [] h
  rw [List.append_nil] at hdecode
  rw [read?, hdecode]
  rfl

/-! ## Words and byte strings -/

theorem decode_bytes {n : Nat} (b : Bytes n) (rest : List UInt8) :
    (bytes n).decode (b.toList ++ rest) = some (b, rest) := by
  have htake : (b.toList ++ rest).take n = b.toList := by
    rw [List.take_append_of_le_length (by simp), List.take_of_length_le (by simp)]
  have hdrop : (b.toList ++ rest).drop n = rest := by
    rw [List.drop_append_of_le_length (by simp), List.drop_of_length_le (by simp)]
    rfl
  show (Bytes.ofList? n ((b.toList ++ rest).take n)).map _ = _
  rw [htake, hdrop, Bytes.ofList?_toList]
  rfl

theorem decode_word {w n : Nat} (h : (word w).Fits n) (rest : List UInt8) :
    (word w).decode ((word w).encode n ++ rest) = some (n, rest) := by
  have hbytes := decode_bytes (Bytes.ofNatLE w n) rest
  have hnumber : (Bytes.ofNatLE w n).toNatLE = n := leNat_leBytes w n h
  show ((bytes w).decode ((Bytes.ofNatLE w n).toList ++ rest)).map
    (fun p => (p.1.toNatLE, p.2)) = _
  rw [hbytes, Option.map_some]
  dsimp only
  rw [hnumber]

instance lawful_bytes (n : Nat) : (bytes n).Lawful where
  decode_encode b rest _ := decode_bytes b rest

instance lawful_word (w : Nat) : (word w).Lawful where
  decode_encode _ rest h := decode_word h rest

instance lawful_flag : flag.Lawful where
  decode_encode b rest _ := by
    cases b <;> rfl

/-! ## Compound values -/

/-- Values that stand for others read back if they stand for them faithfully. -/
theorem Lawful.map (c : Codec α) [c.Lawful] {f : α → β} {g : β → α}
    (h : Function.LeftInverse f g) : (c.map f g).Lawful where
  decode_encode b rest hfits := by
    have hdecode := Lawful.decode_encode (g b) rest (show c.Fits (g b) from hfits)
    show (c.decode (c.encode (g b) ++ rest)).map (fun p => (f p.1, p.2)) = _
    rw [hdecode, Option.map_some]
    dsimp only
    rw [h b]

instance lawful_pair (c : Codec α) (d : Codec β) [c.Lawful] [d.Lawful] : (c.pair d).Lawful where
  decode_encode p rest hfits := by
    have hfirst := Lawful.decode_encode p.1 (d.encode p.2 ++ rest) hfits.1
    have hsecond := Lawful.decode_encode p.2 rest hfits.2
    show ((c.decode (c.encode p.1 ++ d.encode p.2 ++ rest)).bind _) = _
    rw [List.append_assoc, hfirst, Option.bind_some]
    dsimp only
    rw [hsecond]
    rfl

instance lawful_option (c : Codec α) [c.Lawful] : c.option.Lawful where
  decode_encode o rest hfits := by
    cases o with
    | none => rfl
    | some a =>
        have hdecode := Lawful.decode_encode a rest (hfits a rfl)
        show (c.decode (c.encode a ++ rest)).map _ = _
        rw [hdecode]
        rfl

/-- As many values as were written read back. -/
theorem decodeMany_flatMap (c : Codec α) [c.Lawful] (l : List α) (rest : List UInt8)
    (h : ∀ a ∈ l, c.Fits a) :
    c.decodeMany l.length (l.flatMap c.encode ++ rest) = some (l, rest) := by
  -- Over the values: what follows one is the writing of the others and the rest.
  induction l with
  | nil => rfl
  | cons a l ih =>
      have hfirst := Lawful.decode_encode a (l.flatMap c.encode ++ rest) (h a (by simp))
      have hothers := ih fun b hb => h b (by simp [hb])
      rw [List.flatMap_cons, List.append_assoc, List.length_cons]
      unfold decodeMany
      rw [hfirst]
      show (c.decodeMany l.length (l.flatMap c.encode ++ rest)).bind _ = _
      rw [hothers]
      rfl

instance lawful_list (c : Codec α) [c.Lawful] : c.list.Lawful where
  decode_encode l rest hfits := by
    have hlength := decode_word hfits.1 (l.flatMap c.encode ++ rest)
    unfold list
    dsimp only
    rw [List.append_assoc, hlength]
    exact decodeMany_flatMap c l rest hfits.2

instance lawful_sizedBytes (n : Nat) : (sizedBytes n).Lawful where
  decode_encode b rest hfits := by
    have hsize := decode_word (show (word 8).Fits n from hfits) (b.toList ++ rest)
    unfold sizedBytes
    dsimp only
    rw [List.append_assoc, hsize]
    refine (if_pos rfl).trans ?_
    exact decode_bytes b rest

/-- A value out of a list reads back if positions in the list fit the word for them. -/
theorem lawful_oneOf [DecidableEq α] {values : List α} (h : (word 4).Fits values.length) :
    (oneOf values).Lawful where
  decode_encode a rest hfits := by
    have hindex : values.idxOf a < values.length := List.idxOf_lt_length_of_mem hfits
    have hword := decode_word (show (word 4).Fits (values.idxOf a) from Nat.lt_trans hindex h) rest
    have hvalue : values[values.idxOf a]? = some a := by
      rw [List.getElem?_eq_getElem hindex, List.getElem_idxOf hindex]
    unfold oneOf
    dsimp only
    rw [hword]
    show (values[values.idxOf a]?.bind fun a => some (a, rest)) = _
    rw [hvalue]
    rfl

/-! ## Numbers -/

instance lawful_u8 : u8.Lawful := lawful_word 1

instance lawful_u16 : u16.Lawful := lawful_word 2

instance lawful_u32 : u32.Lawful := lawful_word 4

instance lawful_u64 : u64.Lawful := lawful_word 8

/-- The word of a signed number is read as that number. -/
theorem toI64_ofI64 {i : Int} (h : minI64 ≤ i ∧ i ≤ maxI64) : toI64 (ofI64 i) = i := by
  unfold minI64 maxI64 at h
  unfold toI64 wrapI64 ofI64
  rw [Int.toNat_of_nonneg (Int.emod_nonneg _ (by decide))]
  show Int.bmod (i % ((2 ^ 64 : Nat) : Int)) (2 ^ 64) = i
  rw [Int.emod_bmod]
  exact Int.bmod_eq_of_le (by omega) (by omega)

instance lawful_i64 : i64.Lawful where
  decode_encode i rest hfits := by
    have hlt : (word 8).Fits (ofI64 i) := by
      show (i % 2 ^ 64).toNat < 256 ^ 8
      omega
    have hword := decode_word hlt rest
    show ((word 8).decode ((word 8).encode (ofI64 i) ++ rest)).map (fun p => (toI64 p.1, p.2)) = _
    rw [hword, Option.map_some, toI64_ofI64 hfits]

/-! ## Deciding what fits -/

/-- Whether a value fits can be decided. -/
class Decides (c : Codec α) where
  fits : DecidablePred c.Fits

instance (c : Codec α) [c.Decides] : DecidablePred c.Fits := Decides.fits

instance (n : Nat) : (bytes n).Decides := ⟨fun _ => .isTrue trivial⟩

instance (w : Nat) : (word w).Decides := ⟨fun _ => inferInstanceAs (Decidable (_ < _))⟩

instance : flag.Decides := ⟨fun _ => .isTrue trivial⟩

instance (n : Nat) : (sizedBytes n).Decides :=
  ⟨fun _ => inferInstanceAs (Decidable ((word 8).Fits n))⟩

instance : u8.Decides := inferInstanceAs (word 1).Decides

instance : u16.Decides := inferInstanceAs (word 2).Decides

instance : u32.Decides := inferInstanceAs (word 4).Decides

instance : u64.Decides := inferInstanceAs (word 8).Decides

instance : i64.Decides := ⟨fun i => inferInstanceAs (Decidable (minI64 ≤ i ∧ i ≤ maxI64))⟩

instance (c : Codec α) [c.Decides] (f : α → β) (g : β → α) : (c.map f g).Decides :=
  ⟨fun b => inferInstanceAs (Decidable (c.Fits (g b)))⟩

instance (c : Codec α) (d : Codec β) [c.Decides] [d.Decides] : (c.pair d).Decides :=
  ⟨fun p => inferInstanceAs (Decidable (c.Fits p.1 ∧ d.Fits p.2))⟩

instance (c : Codec α) [c.Decides] : c.option.Decides :=
  ⟨fun o => inferInstanceAs (Decidable (∀ a ∈ o, c.Fits a))⟩

instance (c : Codec α) [c.Decides] : c.list.Decides :=
  ⟨fun l => inferInstanceAs (Decidable ((word 8).Fits l.length ∧ ∀ a ∈ l, c.Fits a))⟩

instance [DecidableEq α] (values : List α) : (oneOf values).Decides :=
  ⟨fun a => inferInstanceAs (Decidable (a ∈ values))⟩

end Codec

/-! ## The layouts of registries -/

open Codec (Lawful)

instance HardFork.lawful_codec : HardFork.codec.Lawful := 
  Codec.lawful_oneOf (show 15 < 256 ^ 4 by decide)

instance : HardFork.codec.Decides := inferInstanceAs (Codec.oneOf HardFork.all).Decides

instance InfoVersion.lawful_codec : InfoVersion.codec.Lawful := 
  Codec.lawful_oneOf (show 8 < 256 ^ 4 by decide)

instance : InfoVersion.codec.Decides :=
  inferInstanceAs (Codec.oneOf [0, 1, 2, 3, 4, 5, 6, 7]).Decides

instance Address.lawful_codec : Address.codec.Lawful := .map _ fun _ => rfl

instance : Address.codec.Decides := inferInstanceAs (Codec.map _ _ _).Decides

instance LockedContribution.lawful_codec : LockedContribution.codec.Lawful := .map _ fun _ => rfl

instance : LockedContribution.codec.Decides := inferInstanceAs (Codec.map _ _ _).Decides

instance Contributor.lawful_codec : Contributor.codec.Lawful := .map _ fun _ => rfl

instance : Contributor.codec.Decides := inferInstanceAs (Codec.map _ _ _).Decides

instance PulseSorter.lawful_codec : PulseSorter.codec.Lawful := .map _ fun _ => rfl

instance : PulseSorter.codec.Decides := inferInstanceAs (Codec.map _ _ _).Decides

instance NodeInfo.lawful_codec : NodeInfo.codec.Lawful := .map _ fun _ => rfl

instance : NodeInfo.codec.Decides := inferInstanceAs (Codec.map _ _ _).Decides

instance BlacklistEntry.lawful_codec : BlacklistEntry.codec.Lawful := .map _ fun _ => rfl

instance : BlacklistEntry.codec.Decides := inferInstanceAs (Codec.map _ _ _).Decides

instance Quorum.lawful_codec : Quorum.codec.Lawful := .map _ fun _ => rfl

instance : Quorum.codec.Decides := inferInstanceAs (Codec.map _ _ _).Decides

instance StoredQuorums.lawful_codec : StoredQuorums.codec.Lawful := .map _ fun _ => rfl

instance : StoredQuorums.codec.Decides := inferInstanceAs (Codec.map _ _ _).Decides

instance StoredState.lawful_codec : StoredState.codec.Lawful := .map _ fun _ => rfl

instance : StoredState.codec.Decides := inferInstanceAs (Codec.map _ _ _).Decides

instance StoredData.lawful_codec : StoredData.codec.Lawful := .map _ fun _ => rfl

instance : StoredData.codec.Decides := inferInstanceAs (Codec.map _ _ _).Decides

/-- A snapshot whose numbers fit their words reads back. -/
theorem StoredData.read?_encode {d : StoredData} (h : StoredData.codec.Fits d) :
    StoredData.codec.read? (StoredData.codec.encode d) = some d :=
  Lawful.read?_encode StoredData.codec h

end StakeRegistry
