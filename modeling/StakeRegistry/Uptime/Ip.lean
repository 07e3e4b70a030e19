/-!
# IPv4 addresses

An address is a number of 32 bits, its first part in the highest eight. Public are those that no
standard sets aside.
-/

set_option autoImplicit false

namespace StakeRegistry

/-- A block of addresses: those that agree with `base` in all but the lowest `free` bits. -/
structure IpRange where
  base : Nat
  free : Nat

namespace IpRange

/-- The block of the addresses from `a.b.c.d` on. -/
def of (a b c d free : Nat) : IpRange := ⟨((a * 256 + b) * 256 + c) * 256 + d, free⟩

def contains (r : IpRange) (ip : Nat) : Bool := ip >>> r.free == r.base >>> r.free

end IpRange

/-- The addresses that are not public: this network, private networks, shared address space,
loopback, link-local, documentation, multicast and broadcast. -/
def reservedRanges : List IpRange :=
  [.of 0 0 0 0 24, .of 10 0 0 0 24, .of 172 16 0 0 20, .of 192 168 0 0 16, .of 100 64 0 0 22,
   .of 127 0 0 0 24, .of 169 254 0 0 16, .of 192 0 2 0 8, .of 198 51 100 0 8, .of 203 0 113 0 8,
   .of 224 0 0 0 28, .of 255 255 255 255 0]

def isPublicIp (ip : Nat) : Bool := !reservedRanges.any fun r => r.contains ip

/-- The four parts of an address, with points between them. -/
def dottedIp (ip : Nat) : String :=
  ".".intercalate ([24, 16, 8, 0].map fun shift => toString ((ip >>> shift) % 256))

end StakeRegistry
