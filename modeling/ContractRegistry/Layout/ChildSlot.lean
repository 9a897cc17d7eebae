import ContractRegistry.Address

/-!
Where the contents of mappings, dynamic arrays and byte sequences are stored.

A declaration holds the base slot only. The contents lie at slots that are hashes: of the base slot
for a sequence, of the key and the base slot for an entry of a mapping.
-/
namespace ContractRegistry.ChildSlot

def slotKey (slot : Nat) : Word :=
  BitVec.ofNat 256 slot

def hashed (preimage : List UInt8) : Word :=
  Word.ofBytes (Keccak.hash preimage)

def arrayData (base : Word) : Word :=
  hashed base.bytes

/-- The first slot of an element, where each takes `elementSlots`. Slot numbers wrap around. -/
def arrayElement (base index : Word) (elementSlots : Nat) : Word :=
  arrayData base + index * BitVec.ofNat 256 elementSlots

def mappingValue (key base : Word) : Word :=
  hashed (key.bytes ++ base.bytes)

/-- The slot of the value under an address: the key is the address with zeros in front. -/
def mappingValueOfAddress (address : Address) (base : Word) : Word :=
  hashed (List.replicate 12 0 ++ address.bytes ++ base.bytes)

end ContractRegistry.ChildSlot
