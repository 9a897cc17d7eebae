import ContractRegistry.Numeral

/-!
Words of 256 bits and addresses of 160, as numbers and as bytes.
-/
namespace ContractRegistry

def bigEndian : Nat → Nat → List UInt8
  | 0, _ => []
  | count + 1, n => bigEndian count (n / 256) ++ [(n % 256).toUInt8]

def ofBigEndian (bytes : List UInt8) : Nat :=
  bytes.foldl (fun n b => n * 256 + b.toNat) 0

abbrev Word := BitVec 256

namespace Word

def bytes (w : Word) : List UInt8 :=
  bigEndian 32 w.toNat

def ofBytes (bytes : List UInt8) : Word :=
  BitVec.ofNat 256 (ofBigEndian bytes)

def hex (w : Word) : String :=
  "0x" ++ String.ofList (Numeral.hexDigits 64 w.toNat)

end Word

end ContractRegistry
