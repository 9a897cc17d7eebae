/-!
Numerals of natural numbers: digits in a base, and plain decimal numerals with a bound.
-/
namespace ContractRegistry.Numeral

def decimalDigit? (c : Char) : Option Nat :=
  if '0' ≤ c ∧ c ≤ '9' then some (c.toNat - '0'.toNat) else none

def hexDigit? (c : Char) : Option Nat :=
  if '0' ≤ c ∧ c ≤ '9' then some (c.toNat - '0'.toNat)
  else if 'a' ≤ c ∧ c ≤ 'f' then some (c.toNat - 'a'.toNat + 10)
  else if 'A' ≤ c ∧ c ≤ 'F' then some (c.toNat - 'A'.toNat + 10)
  else none

def extend (base : Nat) (digit? : Char → Option Nat) : Nat → List Char → Option Nat
  | value, [] => some value
  | value, c :: cs => do extend base digit? (value * base + (← digit? c)) cs

def ofDigits? (base : Nat) (digit? : Char → Option Nat) : List Char → Option Nat
  | [] => none
  | cs => extend base digit? 0 cs

def unsigned? (bound : Nat) (cs : List Char) : Option Nat := do
  let digits := match cs with
    | '+' :: rest => rest
    | _ => cs
  let value ← ofDigits? 10 decimalDigit? digits
  if value < bound then some value else none

def hex? (bound : Nat) (cs : List Char) : Option Nat := do
  let value ← ofDigits? 16 hexDigit? cs
  if value < bound then some value else none

def hexChar (n : Nat) : Char :=
  Nat.digitChar n

def hexDigits : Nat → Nat → List Char
  | 0, _ => []
  | width + 1, n => hexDigits width (n / 16) ++ [hexChar (n % 16)]

def limit64 : Nat := 0x10000000000000000

end ContractRegistry.Numeral
