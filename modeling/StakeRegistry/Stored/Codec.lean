import StakeRegistry.Data.Bytes
import StakeRegistry.Data.Word

/-!
# Codecs

The layout of stored values, built up from words. Numbers have a fixed width and come least
significant byte first; lists and some byte strings have their length before them as a 64-bit
word; an optional value and a truth value begin with a byte that is 0 or 1; a value of several
forms begins with the number of its form as a 32-bit word. A reader answers the value and the
bytes after it, and fails on anything that no writer produces.
-/

set_option autoImplicit false

namespace StakeRegistry

/-- A way to write values of a type as bytes and to read them back. -/
structure Codec (α : Type) where
  encode : α → List UInt8
  /-- Reads a value off the front; answers what comes after it too. -/
  decode : List UInt8 → Option (α × List UInt8)
  /-- The values that the layout has room for. -/
  Fits : α → Prop

namespace Codec

variable {α β : Type}

/-- Reads a value; bytes after it are ignored. -/
def read? (c : Codec α) (bytes : List UInt8) : Option α := (c.decode bytes).map (·.1)

/-! ## Words and byte strings -/

/-- A byte string of length `n`, without its length. -/
def bytes (n : Nat) : Codec (Bytes n) where
  encode b := b.toList
  decode bs := (Bytes.ofList? n (bs.take n)).map fun b => (b, bs.drop n)
  Fits _ := True

/-- A number of `w` bytes. -/
def word (w : Nat) : Codec Nat where
  encode n := leBytes w n
  decode bs := ((bytes w).decode bs).map fun (b, rest) => (b.toNatLE, rest)
  Fits n := n < Nat.pow 256 w

/-- A truth value. -/
def flag : Codec Bool where
  encode b := [if b then 1 else 0]
  decode
    | 0 :: rest => some (false, rest)
    | 1 :: rest => some (true, rest)
    | _ => none
  Fits _ := True

/-! ## Compound values -/

/-- A value of another type that stands for it. -/
def map (c : Codec α) (f : α → β) (g : β → α) : Codec β where
  encode b := c.encode (g b)
  decode bs := (c.decode bs).map fun (a, rest) => (f a, rest)
  Fits b := c.Fits (g b)

/-- One value, then another. -/
def pair (c : Codec α) (d : Codec β) : Codec (α × β) where
  encode p := c.encode p.1 ++ d.encode p.2
  decode bs := do
    let (a, bs) ← c.decode bs
    let (b, bs) ← d.decode bs
    return ((a, b), bs)
  Fits p := c.Fits p.1 ∧ d.Fits p.2

/-- A value that may be absent. -/
def option (c : Codec α) : Codec (Option α) where
  encode
    | none => flag.encode false
    | some a => flag.encode true ++ c.encode a
  decode bs := do
    match ← flag.decode bs with
    | (false, bs) => return (none, bs)
    | (true, bs) => (c.decode bs).map fun (a, bs) => (some a, bs)
  Fits o := ∀ a ∈ o, c.Fits a

/-- Reads `n` values. -/
def decodeMany (c : Codec α) : Nat → List UInt8 → Option (List α × List UInt8)
  | 0, bs => some ([], bs)
  | n + 1, bs => do
      let (a, bs) ← c.decode bs
      let (l, bs) ← decodeMany c n bs
      return (a :: l, bs)

/-- A list, after its length. -/
def list (c : Codec α) : Codec (List α) where
  encode l := (word 8).encode l.length ++ l.flatMap c.encode
  decode bs := do
    let (n, bs) ← (word 8).decode bs
    c.decodeMany n bs
  Fits l := (word 8).Fits l.length ∧ ∀ a ∈ l, c.Fits a

/-- A byte string of length `n`, after its length. -/
def sizedBytes (n : Nat) : Codec (Bytes n) where
  encode b := (word 8).encode n ++ b.toList
  decode bs := do
    let (size, bs) ← (word 8).decode bs
    if size = n then (bytes n).decode bs else none
  Fits _ := (word 8).Fits n

/-- A value out of a list of all values, as its position there. -/
def oneOf [DecidableEq α] (values : List α) : Codec α where
  encode a := (word 4).encode (values.idxOf a)
  decode bs := do
    let (i, bs) ← (word 4).decode bs
    let a ← values[i]?
    return (a, bs)
  Fits a := a ∈ values

/-! ## Values of several forms -/

/-- One form of the values of a type: how the fields of the form are written, how they make a
value, and which values have the form. -/
structure Form (α : Type) where
  Fields : Type
  codec : Codec Fields
  make : Fields → α
  fields? : α → Option Fields

/-- Writes a value under the number of its form, the first of `forms` having the number
`first`. -/
def encodeForm (first : Nat) (a : α) : List (Form α) → List UInt8
  | [] => []
  | form :: forms =>
      match form.fields? a with
      | some fields => (word 4).encode first ++ form.codec.encode fields
      | none => encodeForm (first + 1) a forms

/-- A value of one of several forms, after the number of the form. -/
def tagged (forms : List (Form α)) : Codec α where
  encode a := encodeForm 0 a forms
  decode bs :=
    match (word 4).decode bs with
    | none => none
    | some (i, bs) =>
        match forms[i]? with
        | none => none
        | some form => (form.codec.decode bs).map fun (fields, bs) => (form.make fields, bs)
  Fits a := ∃ form ∈ forms, ∃ fields, form.fields? a = some fields ∧ form.codec.Fits fields

/-! ## Numbers -/

def u8 : Codec Nat := word 1

def u16 : Codec Nat := word 2

def u32 : Codec Nat := word 4

def u64 : Codec Nat := word 8

/-- A signed number of eight bytes. -/
def i64 : Codec Int :=
  { u64.map toI64 ofI64 with Fits := fun i => minI64 ≤ i ∧ i ≤ maxI64 }

end Codec

end StakeRegistry
