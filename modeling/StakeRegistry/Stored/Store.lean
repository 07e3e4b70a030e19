import StakeRegistry.Chain.Keys
import StakeRegistry.Data.SortedMap

/-!
# The store

Values by key, both byte strings, and the keys under which the registry keeps its snapshots and
the records of nodes.
-/

set_option autoImplicit false

namespace StakeRegistry

/-- A key-value store. -/
abbrev Store := SortedMap (List UInt8) (List UInt8)

namespace Store

/-- The bytes of an ASCII text. -/
def asciiBytes (s : String) : List UInt8 := s.toList.map fun c => UInt8.ofNat c.toNat

/-- The key of the long-term data. -/
def longTermKey : List UInt8 := asciiBytes "sn:data:long"

/-- The key of the short-term data. -/
def shortTermKey : List UInt8 := asciiBytes "sn:data:short"

/-- What the keys of all records begin with. -/
def recordTag : List UInt8 := asciiBytes "sn:proof:"

/-- The key of a node's record. -/
def recordKey (node : PublicKey) : List UInt8 := recordTag ++ node.toList

/-- The node whose record has a key. -/
def nodeOfKey? (key : List UInt8) : Option PublicKey :=
  if recordTag.isPrefixOf key then Bytes.ofList? 32 (key.drop recordTag.length) else none

/-- Every value whose key begins as those of records do, with the key. -/
def recordEntries (store : Store) : List (List UInt8 × List UInt8) :=
  store.toList.filter fun e => recordTag.isPrefixOf e.1

end Store

end StakeRegistry
