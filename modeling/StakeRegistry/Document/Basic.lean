import StakeRegistry.Data.Hex
import StakeRegistry.Data.SortedMap

/-!
# Documents

Trees of plain values, the form in which settings, blocks and registries are exchanged with
people and other programs. A type that can be read from a document has an instance of
`OfDocument`, one that can be written an instance of `ToDocument`. A field that is left out
reads as null, and null reads as the zero of its type. Byte strings are written in hexadecimal;
`ab*3` stands for `ab` three times.
-/

set_option autoImplicit false

namespace StakeRegistry

/-- A plain value. -/
inductive Document where
  | null
  | bool (b : Bool)
  | int (i : Int)
  /-- A number that is not written as an integer. -/
  | fraction
  | text (s : String)
  | list (items : List Document)
  | record (fields : List (String × Document))
  deriving Inhabited

/-- A reading, or what was expected in its place. -/
abbrev Reading := Except String

/-- Types that are read from documents. -/
class OfDocument (α : Type) where
  ofDocument : Document → Reading α

/-- Types that are written as documents. -/
class ToDocument (α : Type) where
  toDocument : α → Document

export OfDocument (ofDocument)
export ToDocument (toDocument)

namespace Document

/-- The value of a field, the last if several have the name; null when there is none. -/
def field (d : Document) (name : String) : Document :=
  match d with
  | .record fields =>
      match fields.reverse.find? fun f => f.1 == name with
      | some (_, v) => v
      | none => .null
  | _ => .null

/-- The item at a position; null when there is none. -/
def item (d : Document) (i : Nat) : Document :=
  match d with
  | .list items => (items[i]?).getD .null
  | _ => .null

def isNull : Document → Bool
  | .null => true
  | _ => false

def isRecord : Document → Bool
  | .record _ => true
  | _ => false

/-- Reads the field with a name. -/
def get {α : Type} [OfDocument α] (d : Document) (name : String) : Reading α :=
  ofDocument (d.field name)

/-- Reads the field with a name, or answers a preset when it is left out. -/
def getOr {α : Type} [OfDocument α] (d : Document) (name : String) (preset : α) : Reading α :=
  match d.field name with
  | .null => .ok preset
  | v => ofDocument v

/-- Reads the item at a position. -/
def nth {α : Type} [OfDocument α] (d : Document) (i : Nat) : Reading α := ofDocument (d.item i)

/-- The items of a list; null has none. -/
def items : Document → Reading (List Document)
  | .null => .ok []
  | .list items => .ok items
  | _ => .error "list expected"

end Document

/-! ## Plain values -/

instance : OfDocument Document := ⟨.ok⟩

instance : ToDocument Document := ⟨id⟩

instance : OfDocument Int where
  ofDocument
    | .null => .ok 0
    | .int i => .ok i
    | _ => .error "integer expected"

instance : ToDocument Int := ⟨.int⟩

instance : OfDocument Nat where
  ofDocument
    | .null => .ok 0
    | .int i => if 0 ≤ i then .ok i.toNat else .error "unsigned integer expected"
    | _ => .error "integer expected"

instance : ToDocument Nat := ⟨fun n => .int n⟩

instance : OfDocument Bool where
  ofDocument
    | .null => .ok false
    | .bool b => .ok b
    | _ => .error "boolean expected"

instance : ToDocument Bool := ⟨.bool⟩

instance : OfDocument String where
  ofDocument
    | .null => .ok ""
    | .text s => .ok s
    | _ => .error "text expected"

instance : ToDocument String := ⟨.text⟩

/-! ## Compound values -/

section
variable {α β : Type}

instance [OfDocument α] : OfDocument (Option α) where
  ofDocument
    | .null => .ok none
    | d => some <$> ofDocument d

instance [ToDocument α] : ToDocument (Option α) where
  toDocument
    | none => .null
    | some a => toDocument a

instance [OfDocument α] : OfDocument (List α) where
  ofDocument d := do (← d.items).mapM ofDocument

instance [ToDocument α] : ToDocument (List α) where
  toDocument l := .list (l.map toDocument)

instance [OfDocument α] [OfDocument β] : OfDocument (α × β) where
  ofDocument d := return (← d.nth 0, ← d.nth 1)

instance [ToDocument α] [ToDocument β] : ToDocument (α × β) where
  toDocument p := .list [toDocument p.1, toDocument p.2]

instance [Ord α] [Std.TransOrd α] [Std.LawfulEqOrd α] [OfDocument α] [OfDocument β] :
    OfDocument (SortedMap α β) where
  ofDocument d := return SortedMap.ofList (← ofDocument d)

instance [Ord α] [ToDocument α] [ToDocument β] : ToDocument (SortedMap α β) where
  toDocument m := toDocument m.toList

end

/-- The name of a value in a table of names. -/
def nameIn {α : Type} [DecidableEq α] (names : List (α × String)) (a : α) : String :=
  (names.lookup a).getD ""

/-- Reads one of several names. -/
def ofNames {α : Type} (names : List (α × String)) (d : Document) : Reading α := do
  let s : String ← ofDocument d
  match names.find? fun n => n.2 == s with
  | some (a, _) => .ok a
  | none => .error ("one of these names expected: " ++ ", ".intercalate (names.map (·.2)))

/-! ## Byte strings -/

/-- The value of a hexadecimal digit. -/
def hexDigit? (c : Char) : Option Nat :=
  if '0' ≤ c ∧ c ≤ '9' then some (c.toNat - '0'.toNat)
  else if 'a' ≤ c ∧ c ≤ 'f' then some (c.toNat - 'a'.toNat + 10)
  else if 'A' ≤ c ∧ c ≤ 'F' then some (c.toNat - 'A'.toNat + 10)
  else none

/-- The bytes that pairs of hexadecimal digits write. -/
def hexBytes? : List Char → Option (List UInt8)
  | [] => some []
  | a :: b :: rest => do
      let high ← hexDigit? a
      let low ← hexDigit? b
      let bytes ← hexBytes? rest
      return UInt8.ofNat (16 * high + low) :: bytes
  | _ => none

/-- The bytes that a text writes: hexadecimal digits, and after an asterisk how often they are
repeated. -/
def textBytes? (s : String) : Option (List UInt8) := do
  let chars := s.toList
  let digits := chars.takeWhile (· != '*')
  let bytes ← hexBytes? digits
  if digits.length = chars.length then return bytes
  else
    let count ← (String.ofList (chars.drop (digits.length + 1))).toNat?
    return (List.replicate count bytes).flatten

instance : OfDocument (List UInt8) where
  ofDocument
    | .null => .ok []
    | .text s => match textBytes? s with
      | some bytes => .ok bytes
      | none => .error "hexadecimal text expected"
    | _ => .error "hexadecimal text expected"

instance : ToDocument (List UInt8) := ⟨fun bytes => .text (hexText bytes)⟩

instance {n : Nat} : OfDocument (Bytes n) where
  ofDocument
    | .null => .ok 0
    | d => do
        match Bytes.ofList? n (← ofDocument d) with
        | some b => .ok b
        | none => .error ("a byte string of length " ++ toString n ++ " expected")

instance {n : Nat} : ToDocument (Bytes n) := ⟨fun b => toDocument b.toList⟩

/-- A named field of a written record. -/
def entry {α : Type} [ToDocument α] (name : String) (a : α) : String × Document :=
  (name, toDocument a)

end StakeRegistry
