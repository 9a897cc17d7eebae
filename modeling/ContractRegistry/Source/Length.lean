import ContractRegistry.Numeral
import ContractRegistry.Source.Token

/-!
Lengths of fixed arrays.

A length is written with numbers, constants, parentheses and the operators `+`, `-`, `*`, `/` and `**`.
The first two bind weaker than the other three; operators of one rank, `**` among them, group from
the left. Numbers on the way have 128 bits, the length itself and the values of constants 64.
-/
namespace ContractRegistry.Source

inductive LengthOp where
  | add
  | sub
  | mul
  | div
  | pow
deriving DecidableEq, Repr, Inhabited

inductive LengthExpr where
  | literal (text : String)
  | constant (name : String)
  | binary (op : LengthOp) (left right : LengthExpr)
deriving DecidableEq, Repr, Inhabited

namespace LengthExpr

abbrev Read := Option (LengthExpr × List Token)

mutual

/-- Reads a sum. The first argument bounds the number of steps. -/
def sum : Nat → List Token → Read
  | 0, _ => none
  | steps + 1, ts => do
    let (e, ts) ← product steps ts
    sumFrom steps e ts

def sumFrom : Nat → LengthExpr → List Token → Read
  | 0, _, _ => none
  | steps + 1, e, ⟨.punct '+', _⟩ :: ts => do
    let (r, ts) ← product steps ts
    sumFrom steps (.binary .add e r) ts
  | steps + 1, e, ⟨.punct '-', _⟩ :: ts => do
    let (r, ts) ← product steps ts
    sumFrom steps (.binary .sub e r) ts
  | _ + 1, e, ts => some (e, ts)

def product : Nat → List Token → Read
  | 0, _ => none
  | steps + 1, ts => do
    let (e, ts) ← atom steps ts
    productFrom steps e ts

/-- Goes on with a product. Two stars in a row are the power. -/
def productFrom : Nat → LengthExpr → List Token → Read
  | 0, _, _ => none
  | steps + 1, e, ⟨.punct '*', _⟩ :: ⟨.punct '*', _⟩ :: ts => do
    let (r, ts) ← atom steps ts
    productFrom steps (.binary .pow e r) ts
  | steps + 1, e, ⟨.punct '*', _⟩ :: ts => do
    let (r, ts) ← atom steps ts
    productFrom steps (.binary .mul e r) ts
  | steps + 1, e, ⟨.punct '/', _⟩ :: ts => do
    let (r, ts) ← atom steps ts
    productFrom steps (.binary .div e r) ts
  | _ + 1, e, ts => some (e, ts)

def atom : Nat → List Token → Read
  | 0, _ => none
  | _ + 1, ⟨.number text, _⟩ :: ts => some (.literal text, ts)
  | _ + 1, ⟨.word name, _⟩ :: ts => some (.constant name, ts)
  | steps + 1, ⟨.punct '(', _⟩ :: ts => do
    let (e, ts) ← sum steps ts
    match ts with
    | ⟨.punct ')', _⟩ :: ts => some (e, ts)
    | _ => none
  | _ + 1, _ => none

end

/-- The grouping of all these tokens. No more than three steps lie between two tokens. -/
def ofTokens? (ts : List Token) : Option LengthExpr := do
  let (e, rest) ← sum (3 * ts.length + 3) ts
  if rest = [] then some e else none

def limit : Nat := 0x100000000000000000000000000000000

def within? (n : Nat) : Option Nat :=
  if n < limit then some n else none

def exponentLimit : Nat := 0x100000000

/-- A power. The exponent has 32 bits, and from 128 on only powers of zero and one are in reach. -/
def power? (base exponent : Nat) : Option Nat :=
  if exponentLimit ≤ exponent then none
  else if base ≤ 1 then some (if exponent = 0 then 1 else base)
  else if 128 ≤ exponent then none
  else within? (Nat.pow base exponent)

/-- The result of an operator. There is none below zero, for a division by zero, and beyond the
limit. -/
def result? : LengthOp → Nat → Nat → Option Nat
  | .add, a, b => within? (a + b)
  | .sub, a, b => if a < b then none else some (a - b)
  | .mul, a, b => within? (a * b)
  | .div, a, b => if b = 0 then none else some (a / b)
  | .pow, a, b => power? a b

def powerOfTen? (digits : List Char) : Option Nat := do
  let exponent ← Numeral.unsigned? exponentLimit digits
  power? 10 exponent

def isExponentMark (c : Char) : Bool :=
  c = 'e' || c = 'E'

/-- The value of a number: hexadecimal, decimal with an exponent, or decimal. Underscores between
digits do not count. -/
def literalValue? (text : String) : Option Nat :=
  match text.toList.filter (· ≠ '_') with
  | '0' :: 'x' :: digits => Numeral.hex? limit digits
  | digits =>
    if digits.any isExponentMark then do
      let mantissa ← Numeral.unsigned? limit (digits.takeWhile fun c => !isExponentMark c)
      let scale ← powerOfTen? ((digits.dropWhile fun c => !isExponentMark c).drop 1)
      within? (mantissa * scale)
    else Numeral.unsigned? limit digits

def eval? (constantValue? : String → Option Nat) : LengthExpr → Option Nat
  | .literal text => literalValue? text
  | .constant name => constantValue? name
  | .binary op left right => do
    let a ← left.eval? constantValue?
    let b ← right.eval? constantValue?
    result? op a b

end LengthExpr

abbrev Constants := List (String × List Token)

namespace Constants

def init? (constants : Constants) (name : String) : Option (List Token) :=
  List.lookup name constants.reverse

def tokensValue? (constantValue? : String → Option Nat) (ts : List Token) : Option Nat := do
  let e ← LengthExpr.ofTokens? ts
  let value ← e.eval? constantValue?
  if value < Numeral.limit64 then some value else none

/-- The number that a constant denotes. One that is needed for its own value, those in `opened`, has
none. Each of the constants is opened once at most, so their number bounds the depth. -/
def value? (constants : Constants) : Nat → List String → String → Option Nat
  | 0, _, _ => none
  | depth + 1, opened, name =>
    if name ∈ opened then none
    else do
      let ts ← constants.init? name
      tokensValue? (constants.value? depth (name :: opened)) ts

def length? (constants : Constants) (ts : List Token) : Option Nat :=
  tokensValue? (constants.value? (constants.length + 1) []) ts

end Constants

end ContractRegistry.Source
