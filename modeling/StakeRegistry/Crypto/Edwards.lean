import StakeRegistry.Data.Bytes

/-!
# The Edwards curve of Ed25519

Arithmetic in the field of order `2 ^ 255 - 19` and on the twisted Edwards curve
`-x² + y² = 1 + d x² y²`, with points in extended coordinates, and the 32-byte encoding of a
point: its `y` coordinate, least significant byte first, with the parity of `x` in the top
bit. Reading an encoding reduces `y` into the field and takes any parity for `x = 0`.
-/

set_option autoImplicit false

namespace StakeRegistry.Edwards

/-! ## The field -/

/-- The order of the field. -/
def order : Nat := Nat.pow 2 255 - 19

/-- The order of the group that the base point generates. -/
def groupOrder : Nat := Nat.pow 2 252 + 27742317777372353535851937790883648493

def neg (a : Nat) : Nat := (order - a % order) % order

def add (a b : Nat) : Nat := (a + b) % order

def sub (a b : Nat) : Nat := (a + neg b) % order

def mul (a b : Nat) : Nat := a * b % order

/-- The product of `acc` and the power of `base` that the `bits` lowest bits of `e` write. -/
def powFrom : Nat → Nat → Nat → Nat → Nat
  | 0, _, _, acc => acc
  | bits + 1, base, e, acc =>
      powFrom bits (mul base base) (e / 2) (if e % 2 = 1 then mul acc base else acc)

def pow (base e : Nat) : Nat := powFrom 256 base e 1

/-- The inverse in the field; zero for zero. -/
def inv (a : Nat) : Nat := pow a (order - 2)

/-- The constant of the curve equation. -/
def curveD : Nat :=
  37095705934669439343138083508754565189542113879843219016388785533085940283555

/-- A square root of minus one. -/
def rootOfMinusOne : Nat :=
  19681161376707505956807079304988542015446066515923890162744021073123829784752

/-- The even square root of `u / v`, if there is one. -/
def sqrtRatio? (u v : Nat) : Option Nat :=
  let v3 := mul (mul v v) v
  let v7 := mul (mul v3 v3) v
  let r := mul (mul u v3) (pow (mul u v7) ((order - 5) / 8))
  let check := mul v (mul r r)
  let even (x : Nat) : Nat := if x % 2 = 0 then x else neg x
  if check = u then some (even r)
  else if check = neg u then some (even (mul r rootOfMinusOne))
  else none

/-! ## The curve -/

/-- A point in extended coordinates: `x = X / Z`, `y = Y / Z` and `x y = T / Z`. -/
structure Point where
  X : Nat
  Y : Nat
  Z : Nat
  T : Nat

namespace Point

/-- The neutral point. -/
def neutral : Point := ⟨0, 1, 1, 0⟩

/-- The base point, of order `groupOrder`. -/
def base : Point :=
  let x := 15112221349535400772501151409588531511454012693041857206046113283949847762202
  let y := 46316835694926478169428394003475163141307993866256225615783033603165251855960
  ⟨x, y, 1, mul x y⟩

/-- The sum of two points; the formula has no exceptions. -/
def add (p q : Point) : Point :=
  let a := mul (Edwards.sub p.Y p.X) (Edwards.sub q.Y q.X)
  let b := mul (Edwards.add p.Y p.X) (Edwards.add q.Y q.X)
  let c := mul (mul p.T (2 * curveD)) q.T
  let d := mul (2 * p.Z) q.Z
  let e := Edwards.sub b a
  let f := Edwards.sub d c
  let g := Edwards.add d c
  let h := Edwards.add b a
  ⟨mul e f, mul g h, mul f g, mul e h⟩

def neg (p : Point) : Point := ⟨Edwards.neg p.X, p.Y, p.Z, Edwards.neg p.T⟩

/-- `acc` plus the multiple of `p` that the `bits` lowest bits of `k` write. -/
def smulFrom : Nat → Nat → Point → Point → Point
  | 0, _, _, acc => acc
  | bits + 1, k, p, acc =>
      smulFrom bits (k / 2) (p.add p) (if k % 2 = 1 then acc.add p else acc)

/-- The multiple `k p`, for `k` below `2 ^ 256`. -/
def smul (p : Point) (k : Nat) : Point := smulFrom 256 k p neutral

/-- The encoding of a point. -/
def encode (p : Point) : Bytes 32 :=
  let z := inv p.Z
  let x := mul p.X z
  let y := mul p.Y z
  Bytes.ofNatLE 32 (y + Nat.pow 2 255 * (x % 2))

/-- The point that 32 bytes encode, if they encode one. -/
def decode? (bytes : Bytes 32) : Option Point :=
  let n := bytes.toNatLE
  let y := n % Nat.pow 2 255 % order
  let yy := mul y y
  (sqrtRatio? (Edwards.sub yy 1) (Edwards.add (mul yy curveD) 1)).map fun r =>
    let x := if n / Nat.pow 2 255 = 1 then Edwards.neg r else r
    ⟨x, y, 1, mul x y⟩

/-- The `u` coordinate of the point's image on the Montgomery form of the curve; zero for
the two points without one. -/
def montgomeryU (p : Point) : Nat :=
  mul (Edwards.add p.Z p.Y) (inv (Edwards.sub p.Z p.Y))

end Point

end StakeRegistry.Edwards
