import ContractRegistry.Numeral

/-!
Integers of 64 bits as scripts write them.

A numeral may have a sign and blanks before it. Where every base is allowed, a zero in front means base
eight, and `0x` in front base sixteen.
-/
namespace ContractRegistry.Shell.Integer

def largest : Int := 0x7fffffffffffffff

def smallest : Int := -0x8000000000000000

def wrap (n : Int) : Int :=
  Int.bmod n Numeral.limit64

def bits (n : Int) : Nat :=
  (n % (Numeral.limit64 : Int)).toNat

def isSpace (c : Char) : Bool :=
  c = ' ' || ('\t' ≤ c && c ≤ '\r')

def digits (digit? : Char → Option Nat) (cs : List Char) : List Char × List Char :=
  (cs.takeWhile fun c => (digit? c).isSome, cs.dropWhile fun c => (digit? c).isSome)

def octalDigit? (c : Char) : Option Nat :=
  if '0' ≤ c ∧ c ≤ '7' then some (c.toNat - '0'.toNat) else none

def inBase? (base : Nat) (digit? : Char → Option Nat) (cs : List Char) : Option (Nat × List Char) := do
  let (front, rest) := digits digit? cs
  some (← Numeral.ofDigits? base digit? front, rest)

/-- The natural number at the front of a text, in base ten or in any base, and what follows it. -/
def natural? (anyBase : Bool) (cs : List Char) : Option (Nat × List Char) :=
  match anyBase, cs with
  | true, '0' :: 'x' :: rest => (inBase? 16 Numeral.hexDigit? rest).or (some (0, 'x' :: rest))
  | true, '0' :: 'X' :: rest => (inBase? 16 Numeral.hexDigit? rest).or (some (0, 'X' :: rest))
  | true, '0' :: rest => inBase? 8 octalDigit? ('0' :: rest)
  | _, cs => inBase? 10 Numeral.decimalDigit? cs

def leading? (anyBase : Bool) (cs : List Char) : Option (Int × List Char) :=
  match cs.dropWhile isSpace with
  | '-' :: cs => (natural? anyBase cs).map fun (n, rest) => (-(n : Int), rest)
  | '+' :: cs => (natural? anyBase cs).map fun (n, rest) => ((n : Int), rest)
  | cs => (natural? anyBase cs).map fun (n, rest) => ((n : Int), rest)

def clamp (n : Int) : Int :=
  if n < smallest then smallest else if n > largest then largest else n

/-- The integer of a whole text. Where every base is allowed, a blank text is zero. -/
def ofText? (anyBase : Bool) (text : String) : Option Int :=
  match leading? anyBase text.toList with
  | some (n, rest) => if rest.all isSpace && n = clamp n then some n else none
  | none => if anyBase && text.toList.all isSpace then some 0 else none

def countLimit : Int := 0x80000000

def count? (text : String) : Option Nat :=
  match ofText? false text with
  | some n => if 0 ≤ n && n < countLimit then some n.toNat else none
  | none => none

end ContractRegistry.Shell.Integer
