import ContractRegistry.Keccak
import ContractRegistry.Text.Blank
import ContractRegistry.Text.Utf8
import ContractRegistry.Word

/-!
Addresses of contracts and their written forms.
-/
namespace ContractRegistry

abbrev Address := BitVec 160

namespace Address

def byteCount : Nat := 20

def bytes (a : Address) : List UInt8 :=
  bigEndian byteCount a.toNat

/-- The address of this many bytes, the highest first. Each number is below 256. -/
def ofBytes? (bytes : List Nat) : Option Address := do
  guard (bytes.length = byteCount)
  some (BitVec.ofNat 160 (bytes.foldl (fun n b => n * 256 + b) 0))

def digitCount : Nat := 40

def unmarked : List Char → List Char
  | '0' :: 'x' :: rest => rest
  | '0' :: 'X' :: rest => rest
  | cs => cs

def ofHex? (cs : List Char) : Option Address := do
  let digits := unmarked cs
  guard (digits.length = digitCount)
  let n ← Numeral.ofDigits? 16 Numeral.hexDigit? digits
  some (BitVec.ofNat 160 n)

def parse? (text : String) : Option Address :=
  ofHex? (Text.trim text.toList)

def digits (a : Address) : List Char :=
  Numeral.hexDigits digitCount a.toNat

def hex (a : Address) : String :=
  "0x" ++ String.ofList a.digits

def halves (bytes : List UInt8) : List Nat :=
  bytes.flatMap fun b => [b.toNat / 16, b.toNat % 16]

/-- An address with its checksum: a letter is in upper case when the half byte at its place in the
hash of the lower-case digits is eight or more. -/
def checksummed (a : Address) : String :=
  let hash := halves (Keccak.hash (Text.Utf8.encode a.digits))
  "0x" ++ String.ofList
    (List.zipWith (fun c half => if 8 ≤ half then c.toUpper else c) a.digits hash)

end Address

end ContractRegistry
