import ContractRegistry.Numeral

/-!
Built-in types and their names.
-/
namespace ContractRegistry

def slotBytes : Nat := 32

def addressBytes : Nat := 20

inductive Elementary where
  | bool
  | uint (bits : Nat)
  | int (bits : Nat)
  | address
  | fixedBytes (width : Nat)
  | bytes
  | string
deriving DecidableEq, Repr, Inhabited

namespace Elementary

/-- The name of a type. Widths are always written out. -/
def name : Elementary → String
  | .bool => "bool"
  | .uint bits => "uint" ++ toString bits
  | .int bits => "int" ++ toString bits
  | .address => "address"
  | .fixedBytes width => "bytes" ++ toString width
  | .bytes => "bytes"
  | .string => "string"

/-- Bytes taken inside a slot, or nothing for the sequences, which take a slot of their own. -/
def packedSize? : Elementary → Option Nat
  | .bool => some 1
  | .uint bits => some (bits / 8)
  | .int bits => some (bits / 8)
  | .address => some addressBytes
  | .fixedBytes width => some width
  | .bytes => none
  | .string => none

def isDynamic : Elementary → Bool
  | .bytes => true
  | .string => true
  | _ => false

def width? (bound : Nat) : List Char → Option Nat
  | '0' :: _ => none
  | digits => Numeral.unsigned? bound digits

def integerWidth? (digits : List Char) : Option Nat := do
  let bits ← width? 0x10000 digits
  if bits % 8 = 0 ∧ 8 ≤ bits ∧ bits ≤ 256 then some bits else none

def bytesWidth? (digits : List Char) : Option Nat := do
  let width ← width? 0x100 digits
  if 1 ≤ width ∧ width ≤ 32 then some width else none

def ofSizedName? : List Char → Option Elementary
  | 'u' :: 'i' :: 'n' :: 't' :: digits => (integerWidth? digits).map .uint
  | 'i' :: 'n' :: 't' :: digits => (integerWidth? digits).map .int
  | 'b' :: 'y' :: 't' :: 'e' :: 's' :: digits => (bytesWidth? digits).map .fixedBytes
  | _ => none

/-- The type of a name. Integers without a width have 256 bits, and a `byte` is one byte. -/
def ofName? (name : String) : Option Elementary :=
  match name with
  | "bool" => some .bool
  | "address" => some .address
  | "bytes" => some .bytes
  | "string" => some .string
  | "byte" => some (.fixedBytes 1)
  | "uint" => some (.uint 256)
  | "int" => some (.int 256)
  | name => ofSizedName? name.toList

end Elementary

end ContractRegistry
