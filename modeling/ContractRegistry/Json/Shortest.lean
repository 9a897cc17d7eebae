/-!
The fewest decimal digits that read back as a given double.

A positive double is `significand * 2 ^ exponent`. The reals that round to it form an interval around
it, with its ends when the significand is even. Grids of decimal numbers are tried from coarse to
fine. On each, only the two neighbours of the double need a look: if any point of the grid lies in
the interval, one of these two does.
-/
namespace ContractRegistry.Json

/-- A positive double, `significand * 2 ^ exponent`. -/
structure Dyadic where
  significand : Nat
  exponent : Int
deriving DecidableEq, Repr

/-- A positive decimal number, `digits * 10 ^ exponent`. -/
structure Decimal where
  digits : Nat
  exponent : Int
deriving DecidableEq, Repr

namespace Dyadic

/-- The leading bit of a significand. It is not among the bits of a double. -/
def leadingBit : Nat := 0x10000000000000

def exponentCount : Nat := 0x800

/-- The double with these bits, without its sign. Subnormal doubles share the smallest exponent. -/
def ofBits (bits : UInt64) : Dyadic :=
  let fraction : Nat := bits.toNat % leadingBit
  let biased : Nat := bits.toNat / leadingBit % exponentCount
  if biased = 0 then ⟨fraction, -1074⟩ else ⟨leadingBit + fraction, (biased : Int) - 1075⟩

/-- Four times the significand, so that the ends of the interval are whole too. -/
def centre (d : Dyadic) : Nat :=
  4 * d.significand

/-- The lower end. Below a power of two the neighbouring double is half as far away. -/
def lower (d : Dyadic) : Nat :=
  if d.significand = leadingBit ∧ d.exponent ≠ -1074 then d.centre - 1 else d.centre - 2

def upper (d : Dyadic) : Nat :=
  d.centre + 2

/-- What a point `n * 10 ^ k` is multiplied by before it is compared with `centre`, `lower` and
`upper` times the second factor. -/
def scales (d : Dyadic) (k : Int) : Nat × Nat :=
  let binary := d.exponent - 2
  (Nat.pow 10 k.toNat * Nat.pow 2 (-binary).toNat, Nat.pow 10 (-k).toNat * Nat.pow 2 binary.toNat)

def readsBack (d : Dyadic) (k : Int) (n : Nat) : Bool :=
  let (point, own) := d.scales k
  if d.significand % 2 = 0 then
    d.lower * own ≤ n * point && n * point ≤ d.upper * own
  else
    d.lower * own < n * point && n * point < d.upper * own

def below (d : Dyadic) (k : Int) : Nat :=
  let (point, own) := d.scales k
  d.centre * own / point

/-- Of the two neighbours on a grid the one that reads back. If both do, the nearer, and half way
the even one. -/
def onGrid? (d : Dyadic) (k : Int) : Option Nat :=
  let n := d.below k
  match d.readsBack k n, d.readsBack k (n + 1) with
  | false, false => none
  | true, false => some n
  | false, true => some (n + 1)
  | true, true =>
    let (point, own) := d.scales k
    let twice := 2 * d.centre * own
    let half := (2 * n + 1) * point
    if twice < half then some n
    else if half < twice then some (n + 1)
    else some (if n % 2 = 0 then n else n + 1)

def search (d : Dyadic) : Nat → Int → Decimal
  | 0, k => ⟨d.below k, k⟩
  | grids + 1, k =>
    match d.onGrid? k with
    | some n => ⟨n, k⟩
    | none => d.search grids (k - 1)

/-- An exponent of ten above the double: no coarser grid has a point near it. -/
def coarsest (d : Dyadic) : Int :=
  ((Nat.log2 d.significand : Int) + d.exponent) * 30103 / 100000 + 2

/-- The fewest digits that read back, and of these the nearest. Seventeen digits always do. -/
def shortest (d : Dyadic) : Decimal :=
  d.search 20 d.coarsest

end Dyadic

end ContractRegistry.Json
