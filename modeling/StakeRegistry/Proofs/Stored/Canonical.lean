import StakeRegistry.Proofs.Stored.RoundTrip

/-!
# Stored data has one form

A codec is canonical if it accepts nothing but what it writes (`Codec.Canonical`): whatever
reads as a value begins with the bytes of that value, so no two byte strings stand for one
value. The combinators keep this law too, as long as what is read determines what was written:
truth values and forms are told apart by their first bytes, and a length is checked where it
is known beforehand.

A codec that is lawful and canonical is unambiguous (`Codec.unambiguous`): values read back,
their bytes are not the beginning of one another, and all bytes that read as a value begin
alike.
-/

set_option autoImplicit false

namespace StakeRegistry

namespace Codec

variable {α β : Type}

/-- Whatever reads as a value is what is written of it, and that value fits. -/
class Canonical (c : Codec α) : Prop where
  of_decode : ∀ {bs : List UInt8} {a : α} {rest : List UInt8},
    c.decode bs = some (a, rest) → c.Fits a ∧ bs = c.encode a ++ rest

/-! ## Words and byte strings -/

theorem of_decode_bytes {n : Nat} {bs : List UInt8} {b : Bytes n} {rest : List UInt8}
    (h : (bytes n).decode bs = some (b, rest)) : bs = b.toList ++ rest := by
  obtain ⟨read, hread, heq⟩ := Option.map_eq_some_iff.mp h
  obtain ⟨rfl, rfl⟩ := Prod.mk.inj heq
  rw [← Bytes.ofList?_eq_some_iff.mp hread, List.take_append_drop]

theorem of_decode_word {w n : Nat} {bs rest : List UInt8}
    (h : (word w).decode bs = some (n, rest)) :
    (word w).Fits n ∧ bs = (word w).encode n ++ rest := by
  obtain ⟨⟨b, after⟩, hread, heq⟩ := Option.map_eq_some_iff.mp h
  obtain ⟨rfl, rfl⟩ := Prod.mk.inj heq
  have hlt := leNat_lt b.toList
  have hbytes := leBytes_leNat b.toList
  rw [b.length_toList] at hlt hbytes
  refine ⟨hlt, ?_⟩
  show bs = leBytes w (leNat b.toList) ++ after
  rw [hbytes]
  exact of_decode_bytes hread

instance canonical_bytes (n : Nat) : (bytes n).Canonical where
  of_decode h := ⟨trivial, of_decode_bytes h⟩

instance canonical_word (w : Nat) : (word w).Canonical where
  of_decode h := of_decode_word h

instance canonical_flag : flag.Canonical where
  of_decode {bs a rest} h := by
    refine ⟨trivial, ?_⟩
    -- The reader has a case for each truth value, and one that fails.
    unfold flag at h
    dsimp only at h
    split at h <;> cases h <;> rfl

/-! ## Compound values -/

/-- Values that stand for others are canonical if different values stand for different ones. -/
theorem Canonical.map (c : Codec α) [c.Canonical] {f : α → β} {g : β → α}
    (h : Function.RightInverse f g) : (c.map f g).Canonical where
  of_decode {bs b rest} hmapped := by
    obtain ⟨⟨a, after⟩, hread, heq⟩ := Option.map_eq_some_iff.mp hmapped
    obtain ⟨rfl, rfl⟩ := Prod.mk.inj heq
    show c.Fits (g (f a)) ∧ bs = c.encode (g (f a)) ++ after
    rw [h a]
    exact Canonical.of_decode hread

/-- A value of another type that stands for it, where only values with a property are stood
for. -/
def mapOn (c : Codec α) (f : α → β) (g : β → α) (P : β → Prop) : Codec β :=
  { c.map f g with Fits := fun b => c.Fits (g b) ∧ P b }

/-- Values that stand for others read back where they stand for them faithfully. -/
theorem Lawful.mapOn (c : Codec α) [c.Lawful] {f : α → β} {g : β → α} {P : β → Prop}
    (h : ∀ b, P b → f (g b) = b) : (c.mapOn f g P).Lawful where
  decode_encode b rest hfits := by
    have hdecode := Lawful.decode_encode (g b) rest hfits.1
    show (c.decode (c.encode (g b) ++ rest)).map (fun p => (f p.1, p.2)) = _
    rw [hdecode, Option.map_some]
    dsimp only
    rw [h b hfits.2]

/-- Values that stand for others are canonical if different values stand for different ones. -/
theorem Canonical.mapOn (c : Codec α) [c.Canonical] {f : α → β} {g : β → α} {P : β → Prop}
    (h : Function.RightInverse f g) (hP : ∀ a, P (f a)) : (c.mapOn f g P).Canonical where
  of_decode {bs b rest} hmapped := by
    obtain ⟨hfits, hbs⟩ := (Canonical.map c h).of_decode hmapped
    obtain ⟨p, -, heq⟩ := Option.map_eq_some_iff.mp hmapped
    cases heq
    exact ⟨⟨hfits, hP p.1⟩, hbs⟩

instance canonical_pair (c : Codec α) (d : Codec β) [c.Canonical] [d.Canonical] :
    (c.pair d).Canonical where
  of_decode {bs p rest} h := by
    obtain ⟨⟨a, after⟩, hfirst, h⟩ := Option.bind_eq_some_iff.mp h
    obtain ⟨⟨b, final⟩, hsecond, heq⟩ := Option.bind_eq_some_iff.mp h
    cases heq
    obtain ⟨hfits, rfl⟩ := Canonical.of_decode hfirst
    obtain ⟨hfits', rfl⟩ := Canonical.of_decode hsecond
    exact ⟨⟨hfits, hfits'⟩, (List.append_assoc _ _ _).symm⟩

instance canonical_option (c : Codec α) [c.Canonical] : c.option.Canonical where
  of_decode {bs o rest} h := by
    obtain ⟨⟨present, after⟩, hflag, h⟩ := Option.bind_eq_some_iff.mp h
    obtain ⟨-, rfl⟩ := Canonical.of_decode hflag
    cases present with
    | false =>
        cases h
        exact ⟨fun a ha => absurd ha (Option.not_mem_none a), rfl⟩
    | true =>
        obtain ⟨⟨a, final⟩, hread, heq⟩ := Option.map_eq_some_iff.mp h
        cases heq
        obtain ⟨hfits, rfl⟩ := Canonical.of_decode hread
        refine ⟨fun b hb => ?_, (List.append_assoc _ _ _).symm⟩
        cases Option.mem_some_iff.mp hb
        exact hfits

/-- Values read one after another are as many as were asked for, and are what was written. -/
theorem of_decodeMany (c : Codec α) [c.Canonical] {n : Nat} {bs : List UInt8} {l : List α}
    {rest : List UInt8} (h : c.decodeMany n bs = some (l, rest)) :
    l.length = n ∧ (∀ a ∈ l, c.Fits a) ∧ bs = l.flatMap c.encode ++ rest := by
  -- Over the number of values: the first one's bytes stand before those of the others.
  induction n generalizing bs l with
  | zero =>
      cases h
      exact ⟨rfl, fun a ha => absurd ha List.not_mem_nil, rfl⟩
  | succ n ih =>
      unfold decodeMany at h
      obtain ⟨⟨a, after⟩, hfirst, h⟩ := Option.bind_eq_some_iff.mp h
      obtain ⟨⟨others, final⟩, hothers, heq⟩ := Option.bind_eq_some_iff.mp h
      cases heq
      obtain ⟨hfits, rfl⟩ := Canonical.of_decode hfirst
      obtain ⟨rfl, hall, rfl⟩ := ih hothers
      exact ⟨rfl, List.forall_mem_cons.mpr ⟨hfits, hall⟩, (List.append_assoc _ _ _).symm⟩

instance canonical_list (c : Codec α) [c.Canonical] : c.list.Canonical where
  of_decode {bs l rest} h := by
    obtain ⟨⟨n, after⟩, hlength, h⟩ := Option.bind_eq_some_iff.mp h
    obtain ⟨hfits, hbs⟩ := of_decode_word hlength
    obtain ⟨hcount, hall, hafter⟩ := of_decodeMany c h
    rw [← hcount] at hfits hbs
    refine ⟨⟨hfits, hall⟩, ?_⟩
    show bs = (word 8).encode l.length ++ l.flatMap c.encode ++ rest
    rw [hbs, hafter, List.append_assoc]

instance canonical_sizedBytes (n : Nat) : (sizedBytes n).Canonical where
  of_decode {bs b rest} h := by
    obtain ⟨⟨size, after⟩, hsize, h⟩ := Option.bind_eq_some_iff.mp h
    obtain ⟨hfits, hbs⟩ := of_decode_word hsize
    have h : (if size = n then (bytes n).decode after else none) = some (b, rest) := h
    split at h
    · case isTrue heq =>
        rw [heq] at hfits hbs
        refine ⟨hfits, ?_⟩
        show bs = (word 8).encode n ++ b.toList ++ rest
        rw [hbs, of_decode_bytes h, List.append_assoc]
    · cases h

/-- A value out of a list without repetitions is canonical: it has one position there. -/
theorem canonical_oneOf [DecidableEq α] {values : List α} (hnodup : values.Nodup) :
    (oneOf values).Canonical where
  of_decode {bs a rest} h := by
    obtain ⟨⟨i, after⟩, hindex, h⟩ := Option.bind_eq_some_iff.mp h
    obtain ⟨value, hvalue, heq⟩ := Option.bind_eq_some_iff.mp h
    cases heq
    obtain ⟨-, rfl⟩ := of_decode_word hindex
    obtain ⟨hlt, rfl⟩ := List.getElem?_eq_some_iff.mp hvalue
    refine ⟨List.getElem_mem hlt, ?_⟩
    show _ = (word 4).encode (values.idxOf values[i]) ++ rest
    rw [hnodup.idxOf_getElem i hlt]

/-! ## Numbers -/

instance canonical_u8 : u8.Canonical := canonical_word 1

instance canonical_u16 : u16.Canonical := canonical_word 2

instance canonical_u32 : u32.Canonical := canonical_word 4

instance canonical_u64 : u64.Canonical := canonical_word 8

/-- The number that a word is read as is written as that word. -/
theorem ofI64_toI64 {n : Nat} (h : n < 0x10000000000000000) : ofI64 (toI64 n) = n := by
  have hmod := Int.bmod_emod (x := (n : Int)) (m := 0x10000000000000000)
  unfold ofI64 toI64 wrapI64
  omega

instance canonical_i64 : i64.Canonical where
  of_decode {bs i rest} h := by
    obtain ⟨⟨n, after⟩, hread, heq⟩ := Option.map_eq_some_iff.mp h
    obtain ⟨rfl, rfl⟩ := Prod.mk.inj heq
    obtain ⟨hfits, rfl⟩ := of_decode_word hread
    refine ⟨wrapI64_mem n, ?_⟩
    show _ = (word 8).encode (ofI64 (toI64 n)) ++ after
    rw [ofI64_toI64 hfits]

/-! ## Values of several forms -/

/-- A form whose fields make up its values: they are read back out of the value that they make,
and make the value that they were read out of. -/
structure Form.Sound (form : Form α) : Prop where
  lawful : form.codec.Lawful
  canonical : form.codec.Canonical
  fields?_make : ∀ fields, form.fields? (form.make fields) = some fields
  make_of_fields? : ∀ {a fields}, form.fields? a = some fields → form.make fields = a

/-- The number of forms that a value has. -/
def formCount (forms : List (Form α)) (a : α) : Nat :=
  forms.countP fun form => (form.fields? a).isSome

/-- A value with one form is written in that form, under its number. -/
theorem encodeForm_eq {forms : List (Form α)} {a : α} (hcount : formCount forms a ≤ 1)
    {form : Form α} {i : Nat} (hform : forms[i]? = some form) {fields : form.Fields}
    (hfields : form.fields? a = some fields) (first : Nat) :
    encodeForm first a forms = (word 4).encode (first + i) ++ form.codec.encode fields := by
  -- Over the forms: none before the value's own has fields of the value.
  induction forms generalizing first i with
  | nil => simp at hform
  | cons other forms ih =>
      unfold formCount at hcount ih
      rw [List.countP_cons] at hcount
      cases i with
      | zero =>
          obtain rfl : other = form := Option.some.inj hform
          rw [encodeForm, hfields]
          rfl
      | succ i =>
          have hform : forms[i]? = some form := by simpa using hform
          have hlater : 0 < forms.countP fun form => (form.fields? a).isSome :=
            List.countP_pos_iff.mpr
              ⟨form, List.mem_of_getElem? hform, by rw [hfields]; rfl⟩
          have hother : other.fields? a = none := by
            cases hsome : other.fields? a with
            | none => rfl
            | some _ =>
                rw [hsome, Option.isSome_some, if_pos rfl] at hcount
                omega
          rw [encodeForm, hother]
          dsimp only
          rw [ih (by omega) hform (first + 1), Nat.add_assoc, Nat.add_comm 1 i]

/-- Values of several forms read back if each has one form and there are few enough. -/
theorem lawful_tagged {forms : List (Form α)} (hsound : ∀ form ∈ forms, form.Sound)
    (hcount : ∀ a, formCount forms a ≤ 1) (hfew : (word 4).Fits forms.length) :
    (tagged forms).Lawful where
  decode_encode a rest hfits := by
    obtain ⟨form, hmem, fields, hfields, hfits⟩ := hfits
    obtain ⟨i, hi, hform⟩ := List.getElem_of_mem hmem
    have hform? : forms[i]? = some form := List.getElem?_eq_some_iff.mpr ⟨hi, hform⟩
    have hencode := encodeForm_eq (hcount a) hform? hfields 0
    rw [Nat.zero_add] at hencode
    have hnumber := decode_word (show (word 4).Fits i from Nat.lt_trans hi hfew)
      (form.codec.encode fields ++ rest)
    have hread := (hsound form hmem).lawful.decode_encode fields rest hfits
    unfold tagged
    dsimp only
    rw [hencode, List.append_assoc, hnumber]
    dsimp only
    rw [hform?]
    dsimp only
    rw [hread, Option.map_some]
    dsimp only
    rw [(hsound form hmem).make_of_fields? hfields]

/-- What reads as a value of several forms is what is written of it. -/
theorem canonical_tagged {forms : List (Form α)} (hsound : ∀ form ∈ forms, form.Sound)
    (hcount : ∀ a, formCount forms a ≤ 1) : (tagged forms).Canonical where
  of_decode {bs a rest} h := by
    unfold tagged at h
    dsimp only at h
    split at h
    · cases h
    · case h_2 i after hnumber =>
        split at h
        · cases h
        · case h_2 form hform =>
            obtain ⟨⟨fields, final⟩, hread, heq⟩ := Option.map_eq_some_iff.mp h
            cases heq
            have hmem := List.mem_of_getElem? hform
            have hfields := (hsound form hmem).fields?_make fields
            obtain ⟨-, rfl⟩ := of_decode_word hnumber
            obtain ⟨hfits, rfl⟩ := (hsound form hmem).canonical.of_decode hread
            have hencode := encodeForm_eq (hcount (form.make fields)) hform hfields 0
            rw [Nat.zero_add] at hencode
            refine ⟨⟨form, hmem, fields, hfields, hfits⟩, ?_⟩
            show _ = encodeForm 0 (form.make fields) forms ++ final
            rw [hencode, List.append_assoc]

/-! ## Unambiguous layouts -/

/-- A layout in which bytes and values determine each other. -/
structure Unambiguous (c : Codec α) : Prop where
  /-- What was written of a value reads as that value, whatever comes after it. -/
  reads : ∀ a rest, c.Fits a → c.read? (c.encode a ++ rest) = some a
  /-- A part of it that leaves something off does not read as any value. -/
  truncated : ∀ a part, c.Fits a → part <+: c.encode a → part ≠ c.encode a →
    c.read? part = none
  /-- What reads as a value begins with what is written of it. -/
  canonical : ∀ bs a, c.read? bs = some a → c.Fits a ∧ c.encode a <+: bs
  /-- Bytes that read as the same value, with none left over, are the same. -/
  unique : ∀ bs bs' a, c.decode bs = some (a, []) → c.decode bs' = some (a, []) → bs = bs'

theorem Canonical.of_read? {c : Codec α} [c.Canonical] {bs : List UInt8} {a : α}
    (h : c.read? bs = some a) : c.Fits a ∧ ∃ rest, bs = c.encode a ++ rest := by
  obtain ⟨⟨b, rest⟩, hread, rfl⟩ := Option.map_eq_some_iff.mp h
  obtain ⟨hfits, hbs⟩ := Canonical.of_decode hread
  exact ⟨hfits, rest, hbs⟩

/-- Only the whole of what was written of a value begins it and reads as a value. -/
theorem eq_encode_of_read?_part {c : Codec α} [c.Lawful] [c.Canonical] {a b : α}
    {part : List UInt8} (hfits : c.Fits a) (hpart : part <+: c.encode a)
    (hread : c.read? part = some b) : part = c.encode a := by
  obtain ⟨missing, hmissing⟩ := hpart
  obtain ⟨hfits', rest, rfl⟩ := Canonical.of_read? hread
  -- The bytes of `a` begin with those of `b`, so they read both as `a` and as `b`.
  have hwhole := Lawful.decode_encode a [] hfits
  rw [List.append_nil, ← hmissing, List.append_assoc, Lawful.decode_encode b _ hfits'] at hwhole
  obtain ⟨rfl, hnone⟩ := Prod.mk.inj (Option.some.inj hwhole)
  rw [(List.append_eq_nil_iff.mp hnone).1, List.append_nil]

/-- A codec that reads back what it writes and accepts nothing else is unambiguous. -/
theorem unambiguous (c : Codec α) [c.Lawful] [c.Canonical] : c.Unambiguous where
  reads a rest hfits := by
    rw [read?, Lawful.decode_encode a rest hfits]
    rfl
  truncated a part hfits hpart hne := by
    cases hread : c.read? part with
    | none => rfl
    | some b => exact absurd (eq_encode_of_read?_part hfits hpart hread) hne
  canonical bs a hread := by
    obtain ⟨hfits, rest, rfl⟩ := Canonical.of_read? hread
    exact ⟨hfits, List.prefix_append _ _⟩
  unique bs bs' a h h' := (Canonical.of_decode h).2.trans (Canonical.of_decode h').2.symm

end Codec

end StakeRegistry
