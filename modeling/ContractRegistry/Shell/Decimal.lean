import ContractRegistry.Json.Shortest
import ContractRegistry.Shell.Integer

/-!
Doubles with a fixed number of decimal places.

A double is read from a numeral and written as a quotient of natural numbers, rounded to the nearest
decimal number; of two that are equally near the even one is taken.
-/
namespace ContractRegistry.Shell.Decimal

inductive Magnitude where
  | quotient (numerator denominator : Nat)
  | infinite
  | undefined
deriving DecidableEq, Repr, Inhabited

structure Signed where
  negative : Bool
  magnitude : Magnitude
deriving DecidableEq, Repr, Inhabited

def Magnitude.ofFloat (f : Float) : Magnitude :=
  if f.isNaN then .undefined
  else if f.isInf then .infinite
  else
    let d := Json.Dyadic.ofBits f.toBits
    .quotient (d.significand * Nat.pow 2 d.exponent.toNat) (Nat.pow 2 (-d.exponent).toNat)

def exponentLimit : Nat := 5000

def exponent (cs : List Char) : Int × List Char :=
  let read (cs : List Char) : Option (Nat × List Char) :=
    Integer.inBase? 10 Numeral.decimalDigit? cs
  let found : Option (Int × List Char) := match cs with
    | e :: rest =>
      if e = 'e' || e = 'E' then
        match rest with
        | '-' :: rest => (read rest).map fun (n, rest) => (-(min n exponentLimit : Int), rest)
        | '+' :: rest => (read rest).map fun (n, rest) => ((min n exponentLimit : Int), rest)
        | rest => (read rest).map fun (n, rest) => ((min n exponentLimit : Int), rest)
      else none
    | [] => none
  found.getD (0, cs)

def magnitude? (cs : List Char) : Option (Magnitude × List Char) :=
  let lower := (cs.take 8).map Char.toLower
  if "infinity".toList.isPrefixOf lower then some (.infinite, cs.drop 8)
  else if "inf".toList.isPrefixOf lower then some (.infinite, cs.drop 3)
  else if "nan".toList.isPrefixOf lower then some (.undefined, cs.drop 3)
  else
    let (whole, rest) := Integer.digits Numeral.decimalDigit? cs
    let (fraction, rest) := match rest with
      | '.' :: more => Integer.digits Numeral.decimalDigit? more
      | rest => ([], rest)
    match Numeral.ofDigits? 10 Numeral.decimalDigit? (whole ++ fraction) with
    | none => none
    | some significand =>
      let (e, rest) := exponent rest
      let scale : Int := e - fraction.length
      some (.ofFloat (Float.ofScientific significand (scale < 0) scale.natAbs), rest)

def leading? (cs : List Char) : Option (Signed × List Char) :=
  match cs.dropWhile Integer.isSpace with
  | '-' :: cs => (magnitude? cs).map fun (m, rest) => (⟨true, m⟩, rest)
  | '+' :: cs => (magnitude? cs).map fun (m, rest) => (⟨false, m⟩, rest)
  | cs => (magnitude? cs).map fun (m, rest) => (⟨false, m⟩, rest)

def nearest (numerator denominator : Nat) : Nat :=
  let q := numerator / denominator
  let twice := 2 * (numerator % denominator)
  if twice < denominator || (twice = denominator && q % 2 = 0) then q else q + 1

def units (numerator denominator : Nat) (scale : Int) : Nat :=
  nearest (numerator * Nat.pow 10 (-scale).toNat) (denominator * Nat.pow 10 scale.toNat)

def digitsOf (count n : Nat) : List Char :=
  let digits := (toString n).toList
  List.replicate (count - digits.length) '0' ++ digits

def pointed (always : Bool) (places : Nat) (digits : List Char) : List Char :=
  let whole := digits.take (digits.length - places)
  if places = 0 then if always then whole ++ ['.'] else whole
  else whole ++ '.' :: digits.drop (digits.length - places)

def fixed (always : Bool) (places numerator denominator : Nat) : List Char :=
  pointed always places (digitsOf (places + 1) (units numerator denominator (-(places : Int))))

/-- Goes up or down from an exponent until the quotient lies between its power of ten and the next
one. -/
def orderFrom (numerator denominator : Nat) : Nat → Int → Int
  | 0, e => e
  | fuel + 1, e =>
    if numerator * Nat.pow 10 (-e).toNat < denominator * Nat.pow 10 e.toNat then
      orderFrom numerator denominator fuel (e - 1)
    else if denominator * Nat.pow 10 (e + 1).toNat ≤ numerator * Nat.pow 10 (-(e + 1)).toNat then
      orderFrom numerator denominator fuel (e + 1)
    else e

def scientific (places numerator denominator : Nat) : List Char × Int :=
  if numerator = 0 then (List.replicate (places + 1) '0', 0)
  else
    let e := orderFrom numerator denominator 800 0
    let n := units numerator denominator (e - places)
    if n < Nat.pow 10 (places + 1) then (digitsOf (places + 1) n, e)
    else (digitsOf (places + 1) (n / 10), e + 1)

def withExponent (mantissa : List Char) (e : Int) : List Char :=
  mantissa ++ 'e' :: (if e < 0 then '-' else '+') :: digitsOf 2 e.natAbs

def withoutZeros (cs : List Char) : List Char :=
  if cs.contains '.' then
    let rest := (cs.reverse.dropWhile fun c => c = '0')
    (match rest with
    | '.' :: rest => rest
    | rest => rest).reverse
  else cs

/-- The text of a magnitude for one of the letters `e`, `f` and `g`. With `always` there is a point,
and zeros at the end stay. -/
def text (letter : Char) (always : Bool) (precision : Nat) : Magnitude → List Char
  | .infinite => "inf".toList
  | .undefined => "nan".toList
  | .quotient a b =>
    if letter = 'f' then fixed always precision a b
    else if letter = 'e' then
      let (digits, e) := scientific precision a b
      withExponent (pointed always precision digits) e
    else
      let places := precision - 1
      let (digits, e) := scientific places a b
      let kept (cs : List Char) : List Char := if always then cs else withoutZeros cs
      if -4 ≤ e ∧ e ≤ places then kept (fixed always (places - e).toNat a b)
      else withExponent (kept (pointed always places digits)) e

end ContractRegistry.Shell.Decimal
