import ContractRegistry.Source.Length

/-!
Arithmetic expressions as Solidity reads them.

A power binds tighter than a product and a product tighter than a sum. Powers group from the right,
products and sums from the left. Phrases are the expressions of this grammar, each with its tokens, its
grouping and, on unbounded natural numbers, its value.
-/
namespace ContractRegistry.Source

/-- What an expression is made of at its outermost: operators of a rank, or none. -/
inductive Rank where
  | atom
  | power
  | product
  | sum
deriving DecidableEq, Repr

/-- Expressions over numbers, by the rules of the grammar. The numbers beside the operators are lines. -/
inductive Phrase : Rank → Type where
  | literal (text : String) (line : Nat) (unsigned : '+' ∉ text.toList) : Phrase .atom
  | group (inner : Phrase .sum) (opened closed : Nat) : Phrase .atom
  | single (a : Phrase .atom) : Phrase .power
  | power (base : Phrase .atom) (exponent : Phrase .power) (first second : Nat) : Phrase .power
  | factor (p : Phrase .power) : Phrase .product
  | times (left : Phrase .product) (right : Phrase .power) (line : Nat) : Phrase .product
  | divide (left : Phrase .product) (right : Phrase .power) (line : Nat) : Phrase .product
  | term (p : Phrase .product) : Phrase .sum
  | plus (left : Phrase .sum) (right : Phrase .product) (line : Nat) : Phrase .sum
  | minus (left : Phrase .sum) (right : Phrase .product) (line : Nat) : Phrase .sum

namespace Phrase

/-- The tokens of an expression. Two stars in a row are the power. -/
def tokens : {r : Rank} → Phrase r → List Token
  | _, .literal text line _ => [⟨.number text, line⟩]
  | _, .group inner opened closed => ⟨.punct '(', opened⟩ :: inner.tokens ++ [⟨.punct ')', closed⟩]
  | _, .single a => a.tokens
  | _, .power base exponent first second =>
    base.tokens ++ ⟨.punct '*', first⟩ :: ⟨.punct '*', second⟩ :: exponent.tokens
  | _, .factor p => p.tokens
  | _, .times left right line => left.tokens ++ ⟨.punct '*', line⟩ :: right.tokens
  | _, .divide left right line => left.tokens ++ ⟨.punct '/', line⟩ :: right.tokens
  | _, .term p => p.tokens
  | _, .plus left right line => left.tokens ++ ⟨.punct '+', line⟩ :: right.tokens
  | _, .minus left right line => left.tokens ++ ⟨.punct '-', line⟩ :: right.tokens

section

variable (line opened closed first second : Nat) (inner left : Phrase .sum)
  (factors factor : Phrase .product) (exponent right : Phrase .power) (base : Phrase .atom)

theorem tokens_group : (group inner opened closed).tokens =
    ⟨.punct '(', opened⟩ :: inner.tokens ++ [⟨.punct ')', closed⟩] := rfl

theorem tokens_power : (power base exponent first second).tokens =
    base.tokens ++ ⟨.punct '*', first⟩ :: ⟨.punct '*', second⟩ :: exponent.tokens := rfl

theorem tokens_times : (times factors right line).tokens =
    factors.tokens ++ ⟨.punct '*', line⟩ :: right.tokens := rfl

theorem tokens_divide : (divide factors right line).tokens =
    factors.tokens ++ ⟨.punct '/', line⟩ :: right.tokens := rfl

theorem tokens_plus : (plus left factor line).tokens =
    left.tokens ++ ⟨.punct '+', line⟩ :: factor.tokens := rfl

theorem tokens_minus : (minus left factor line).tokens =
    left.tokens ++ ⟨.punct '-', line⟩ :: factor.tokens := rfl

end

def tree : {r : Rank} → Phrase r → LengthExpr
  | _, .literal text _ _ => .literal text
  | _, .group inner _ _ => inner.tree
  | _, .single a => a.tree
  | _, .power base exponent _ _ => .binary .pow base.tree exponent.tree
  | _, .factor p => p.tree
  | _, .times left right _ => .binary .mul left.tree right.tree
  | _, .divide left right _ => .binary .div left.tree right.tree
  | _, .term p => p.tree
  | _, .plus left right _ => .binary .add left.tree right.tree
  | _, .minus left right _ => .binary .sub left.tree right.tree

def IsSingle : Phrase .power → Prop
  | .single _ => True
  | .power _ _ _ _ => False

/-- Every power comes first in its product: no operator of the product stands before it, and its
exponent is no power. -/
def PowersLead : {r : Rank} → Phrase r → Prop
  | _, .literal _ _ _ => True
  | _, .group inner _ _ => inner.PowersLead
  | _, .single a => a.PowersLead
  | _, .power base exponent _ _ => base.PowersLead ∧ exponent.PowersLead ∧ exponent.IsSingle
  | _, .factor p => p.PowersLead
  | _, .times left right _ => left.PowersLead ∧ right.PowersLead ∧ right.IsSingle
  | _, .divide left right _ => left.PowersLead ∧ right.PowersLead ∧ right.IsSingle
  | _, .term p => p.PowersLead
  | _, .plus left right _ => left.PowersLead ∧ right.PowersLead
  | _, .minus left right _ => left.PowersLead ∧ right.PowersLead

end Phrase

namespace LengthOp

/-- The result of an operator on natural numbers. There is none below zero, and none for a division by
zero. -/
def compute? : LengthOp → Nat → Nat → Option Nat
  | .add, a, b => some (a + b)
  | .sub, a, b => if a < b then none else some (a - b)
  | .mul, a, b => some (a * b)
  | .div, a, b => if b = 0 then none else some (a / b)
  | .pow, a, b => some (Nat.pow a b)

end LengthOp

namespace LengthExpr

def decimal? (digits : List Char) : Option Nat :=
  Numeral.ofDigits? 10 Numeral.decimalDigit? digits

/-- The number that a literal denotes, however large: hexadecimal, decimal with an exponent, or
decimal. -/
def number? (text : String) : Option Nat :=
  let digits := text.toList.filter (· ≠ '_')
  if digits.take 2 = ['0', 'x'] then Numeral.ofDigits? 16 Numeral.hexDigit? (digits.drop 2)
  else if digits.any isExponentMark then do
    let mantissa ← decimal? (digits.takeWhile fun c => !isExponentMark c)
    let exponent ← decimal? ((digits.dropWhile fun c => !isExponentMark c).drop 1)
    some (mantissa * Nat.pow 10 exponent)
  else decimal? digits

def natural? : LengthExpr → Option Nat
  | .literal text => number? text
  | .constant _ => none
  | .binary op left right => do
    let a ← left.natural?
    let b ← right.natural?
    op.compute? a b

def Closed : LengthExpr → Prop
  | .literal text => '+' ∉ text.toList
  | .constant _ => False
  | .binary _ left right => left.Closed ∧ right.Closed

theorem within?_eq_some {n m : Nat} (run : within? n = some m) : n = m := by
  unfold within? at run
  split at run
  · exact Option.some.inj run
  · simp at run

theorem power?_eq_some {base exponent n : Nat} (run : power? base exponent = some n) :
    Nat.pow base exponent = n := by
  unfold power? at run
  split at run
  · simp at run
  · split at run
    · rename_i small
      -- The powers of zero and one are known without a bound.
      rw [← Option.some.inj run]
      obtain rfl | rfl : base = 0 ∨ base = 1 := by omega
      · cases exponent <;> simp
      · simp
    · split at run
      · simp at run
      · exact within?_eq_some run

theorem compute?_of_result? {op : LengthOp} {a b n : Nat} (run : result? op a b = some n) :
    op.compute? a b = some n := by
  cases op with
  | add => exact congrArg some (within?_eq_some run)
  | sub => exact run
  | mul => exact congrArg some (within?_eq_some run)
  | div => exact run
  | pow => exact congrArg some (power?_eq_some run)

theorem decimal?_of_unsigned? {bound n : Nat} {digits : List Char} (plain : '+' ∉ digits)
    (run : Numeral.unsigned? bound digits = some n) : decimal? digits = some n := by
  simp only [Numeral.unsigned?] at run
  split at run
  · simp at plain
  · obtain ⟨value, read, run⟩ := Option.bind_eq_some_iff.mp run
    split at run
    · rw [← Option.some.inj run]
      exact read
    · simp at run

theorem number?_of_literalValue? {text : String} {n : Nat} (unsigned : '+' ∉ text.toList)
    (run : literalValue? text = some n) : number? text = some n := by
  unfold literalValue? at run
  unfold number?
  have plain : '+' ∉ text.toList.filter (· ≠ '_') := fun mem => unsigned (List.mem_filter.mp mem).1
  generalize text.toList.filter (· ≠ '_') = digits at run plain
  split at run
  · obtain ⟨value, read, run⟩ := Option.bind_eq_some_iff.mp run
    split at run
    · rw [← Option.some.inj run]
      exact read
    · contradiction
  · rename_i other
    have decimal : digits.take 2 ≠ ['0', 'x'] := by
      intro start
      have whole := List.take_append_drop 2 digits
      rw [start] at whole
      exact other (digits.drop 2) whole.symm
    rw [if_neg decimal]
    split at run
    · rename_i marked
      rw [if_pos marked]
      obtain ⟨mantissa, front, run⟩ := Option.bind_eq_some_iff.mp run
      obtain ⟨scale, back, run⟩ := Option.bind_eq_some_iff.mp run
      obtain ⟨exponent, read, raised⟩ := Option.bind_eq_some_iff.mp back
      rw [← within?_eq_some run, ← power?_eq_some raised]
      have frontPlain := decimal?_of_unsigned?
        (fun mem => plain ((List.takeWhile_sublist _).subset mem)) front
      have backPlain := decimal?_of_unsigned? (fun mem => plain
        ((List.dropWhile_sublist _).subset ((List.drop_sublist 1 _).subset mem))) read
      exact Option.bind_eq_some_iff.mpr
        ⟨mantissa, frontPlain, Option.bind_eq_some_iff.mpr ⟨exponent, backPlain, rfl⟩⟩
    · rename_i unmarked
      rw [if_neg unmarked]
      exact decimal?_of_unsigned? plain run

theorem natural?_of_eval? {constantValue? : String → Option Nat} {e : LengthExpr} {n : Nat}
    (closed : e.Closed) (run : e.eval? constantValue? = some n) : e.natural? = some n := by
  induction e generalizing n with
  | literal text => exact number?_of_literalValue? closed run
  | constant name => exact closed.elim
  | binary op left right ihl ihr =>
    obtain ⟨a, first, run⟩ := Option.bind_eq_some_iff.mp run
    obtain ⟨b, second, run⟩ := Option.bind_eq_some_iff.mp run
    simp [natural?, ihl closed.1 first, ihr closed.2 second, compute?_of_result? run]

end LengthExpr

namespace Phrase

theorem tree_closed {r : Rank} (p : Phrase r) : p.tree.Closed := by
  induction p with
  | literal text line unsigned => exact unsigned
  | group inner opened closed ih => exact ih
  | single a ih => exact ih
  | power base exponent first second ihb ihe => exact ⟨ihb, ihe⟩
  | factor p ih => exact ih
  | times left right line ihl ihr => exact ⟨ihl, ihr⟩
  | divide left right line ihl ihr => exact ⟨ihl, ihr⟩
  | term p ih => exact ih
  | plus left right line ihl ihr => exact ⟨ihl, ihr⟩
  | minus left right line ihl ihr => exact ⟨ihl, ihr⟩

end Phrase

end ContractRegistry.Source
