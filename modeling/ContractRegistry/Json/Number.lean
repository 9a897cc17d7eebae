import ContractRegistry.Json.Shortest
import ContractRegistry.Json.Value
import ContractRegistry.Numeral

/-!
Numbers as text.

A numeral without fraction and exponent that fits 64 bits is an integer. Every other numeral is a
double: digits are taken up to 64 bits, further ones only move the point, and the result is scaled
by a power of ten with the rounding of doubles. A numeral beyond the largest double is refused.
-/
namespace ContractRegistry.Json

/-- A numeral in its parts: digits before the point, behind it, and the exponent with its sign. -/
structure Numeral where
  negative : Bool
  whole : List Nat
  fraction : List Nat
  exponent : Option (Bool × List Nat)
deriving DecidableEq, Repr, Inhabited

def signBit : Nat := 0x8000000000000000

namespace Numeral

/-- Takes digits while the number stays below `2 ^ 64`, and counts those that are left over. -/
def absorb : Nat → List Nat → Nat × Nat
  | value, [] => (value, 0)
  | value, d :: ds =>
    if value * 10 + d < ContractRegistry.Numeral.limit64 then absorb (value * 10 + d) ds
    else (value, ds.length + 1)

def largestPower : Nat := 308

def power (n : Nat) : Float :=
  Float.ofScientific 1 false n

def shrink : Nat → Float → Nat → Float
  | 0, f, n => f / power n
  | steps + 1, f, n =>
    if n ≤ largestPower then f / power n
    else if f == 0 then f
    else shrink steps (f / power largestPower) (n - largestPower)

def scaled? (significand : Nat) (exponent : Int) : Option Float :=
  let f := significand.toUInt64.toFloat
  if exponent < 0 then
    some (shrink (exponent.natAbs / largestPower) f exponent.natAbs)
  else if exponent.toNat ≤ largestPower then
    let product := f * power exponent.toNat
    if product.isInf then none else some product
  else if significand = 0 then some f
  else none

/-- An exponent written with more digits than this bound allows counts as out of reach. -/
def exponentLimit : Nat := 0x80000000

def exponentSize? (digits : List Nat) : Option Nat :=
  let size := digits.foldl (fun n d => n * 10 + d) 0
  if size < exponentLimit then some size else none

def magnitude? (n : Numeral) : Option Float :=
  let (head, dropped) := absorb 0 n.whole
  let (significand, ignored) := absorb head n.fraction
  let point : Int := (dropped : Int) - ((n.fraction.length - ignored : Nat) : Int)
  match n.exponent with
  | none => scaled? significand point
  | some (down, digits) =>
    match exponentSize? digits with
    | some size => scaled? significand (if down then point - size else point + size)
    | none => if significand = 0 ∨ down then some 0 else none

def real? (n : Numeral) : Option Number := do
  let f ← n.magnitude?
  some (.real (if n.negative then -f else f).toBits)

/-- The number that a numeral denotes. Minus zero is a double, as no integer is. -/
def number? (n : Numeral) : Option Number :=
  let (value, left) := absorb 0 n.whole
  if n.fraction = [] ∧ n.exponent = none ∧ left = 0 then
    if n.negative then
      if value ≠ 0 ∧ value ≤ signBit then some (.integer (-(value : Int))) else n.real?
    else some (.integer value)
  else n.real?

end Numeral

/-- Digits of a double are written out up to this many places before the point, … -/
def largestPlain : Int := 16

/-- … and with fewer than this many zeros behind it. -/
def smallestPlain : Int := -5

/-- The text of a positive decimal number. There is always a point or an exponent, and an exponent has
its sign. -/
def Decimal.text (d : Decimal) : String :=
  let digits := (toString d.digits).toList
  let count : Int := digits.length
  let point := count + d.exponent
  if 0 ≤ d.exponent ∧ point ≤ largestPlain then
    String.ofList (digits ++ List.replicate d.exponent.toNat '0') ++ ".0"
  else if 0 < point ∧ point ≤ largestPlain then
    String.ofList (digits.take point.toNat) ++ "." ++ String.ofList (digits.drop point.toNat)
  else if smallestPlain < point ∧ point ≤ 0 then
    "0." ++ String.ofList (List.replicate (-point).toNat '0' ++ digits)
  else
    let power := (if 0 < point then "e+" else "e") ++ toString (point - 1)
    match digits with
    | [digit] => String.ofList [digit] ++ power
    | digit :: rest => String.ofList (digit :: '.' :: rest) ++ power
    | [] => power

def Number.text : Number → String
  | .integer value => toString value
  | .real bits =>
    let sign := if bits.toNat < signBit then "" else "-"
    let d := Dyadic.ofBits bits
    if d.significand = 0 then sign ++ "0.0" else sign ++ d.shortest.text

end ContractRegistry.Json
