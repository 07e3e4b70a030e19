import StakeRegistry.Data.Bytes

/-!
# Numbers and bytes as text

Bytes in lower-case hexadecimal and numbers in base two and sixteen, as messages show them.
-/

set_option autoImplicit false

namespace StakeRegistry

/-- Two digits for every byte. -/
def hexText (bytes : List UInt8) : String :=
  String.ofList (bytes.flatMap fun b => [Nat.digitChar (b.toNat / 16), Nat.digitChar (b.toNat % 16)])

/-- The lower-case hexadecimal text of a byte string of fixed length. -/
def Bytes.hex {n : Nat} (b : Bytes n) : String := hexText b.toList

/-- A number in base sixteen after the mark `0x`. -/
def hexNumber (n : Nat) : String := "0x" ++ String.ofList (Nat.toDigits 16 n)

/-- A number in base two, zeros in front up to `width` digits. -/
def binaryNumber (width n : Nat) : String :=
  let digits := Nat.toDigits 2 n
  String.ofList (List.replicate (width - digits.length) '0' ++ digits)

/-- Items between brackets, after commas and blanks. -/
def bracketed (items : List String) : String := "[" ++ ", ".intercalate items ++ "]"

end StakeRegistry
