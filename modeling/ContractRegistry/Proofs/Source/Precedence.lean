import ContractRegistry.Proofs.Source.Grouping

/-!
Which expressions are given the length that the grammar gives them.

If all powers of an expression come first in their products, then its length is right whatever numbers
stand in it. If not, then some numbers make it wrong, and 0, 1 and 2 are enough: each part of an
expression can be given one of these values in both groupings at once, and a power that does not come
first can be given two values that differ.
-/
namespace ContractRegistry.Source

def LengthExpr.Is (e : LengthExpr) (n : Nat) : Prop :=
  ∀ value?, e.eval? value? = some n

theorem LengthExpr.Is.binary {op : LengthOp} {left right : LengthExpr} {a b n : Nat}
    (first : left.Is a) (second : right.Is b) (run : result? op a b = some n) :
    (LengthExpr.binary op left right).Is n := by
  intro value?
  simp [eval?, first value?, second value?, run]

namespace Phrase

open LengthExpr

def blank : {r : Rank} → Phrase r → Phrase r
  | _, .literal _ line _ => .literal "0" line (by decide)
  | _, .group inner opened closed => .group inner.blank opened closed
  | _, .single a => .single a.blank
  | _, .power base exponent first second => .power base.blank exponent.blank first second
  | _, .factor p => .factor p.blank
  | _, .times left right line => .times left.blank right.blank line
  | _, .divide left right line => .divide left.blank right.blank line
  | _, .term p => .term p.blank
  | _, .plus left right line => .plus left.blank right.blank line
  | _, .minus left right line => .minus left.blank right.blank line

section

variable (line first second : Nat) (left : Phrase .sum) (factors factor : Phrase .product)
  (exponent right : Phrase .power) (base : Phrase .atom)

theorem blank_single : (single base).blank = single base.blank := rfl

theorem blank_power : (power base exponent first second).blank =
    power base.blank exponent.blank first second := rfl

theorem blank_times : (times factors right line).blank = times factors.blank right.blank line := rfl

theorem blank_divide : (divide factors right line).blank = divide factors.blank right.blank line := rfl

theorem blank_plus : (plus left factor line).blank = plus left.blank factor.blank line := rfl

theorem blank_minus : (minus left factor line).blank = minus left.blank factor.blank line := rfl

end

theorem isSingle_blank (p : Phrase .power) : p.blank.IsSingle ↔ p.IsSingle := by
  cases p <;> rfl

theorem powersLead_blank {r : Rank} (p : Phrase r) : p.blank.PowersLead ↔ p.PowersLead := by
  induction p with
  | literal text line unsigned => rfl
  | group inner opened closed ih => exact ih
  | single a ih => exact ih
  | power base exponent first second ihb ihe =>
    exact and_congr ihb (and_congr ihe (isSingle_blank exponent))
  | factor p ih => exact ih
  | times left right line ihl ihr => exact and_congr ihl (and_congr ihr (isSingle_blank right))
  | divide left right line ihl ihr => exact and_congr ihl (and_congr ihr (isSingle_blank right))
  | term p ih => exact ih
  | plus left right line ihl ihr => exact and_congr ihl ihr
  | minus left right line ihl ihr => exact and_congr ihl ihr

def digit : Nat → String
  | 0 => "0"
  | 1 => "1"
  | _ => "2"

theorem digit_is {n : Nat} (small : n ≤ 2) :
    '+' ∉ (digit n).toList ∧ (LengthExpr.literal (digit n)).Is n := by
  have value : '+' ∉ (digit n).toList ∧ literalValue? (digit n) = some n := by
    obtain rfl | rfl | rfl : n = 0 ∨ n = 1 ∨ n = 2 := by omega
    all_goals decide
  exact ⟨value.1, fun _ => value.2⟩

def OfProduct (op : LengthOp) : Prop :=
  op = .mul ∨ op = .div ∨ op = .pow

theorem ofProduct_mul : OfProduct .mul := .inl rfl

theorem ofProduct_div : OfProduct .div := .inr (.inl rfl)

theorem ofProduct_pow : OfProduct .pow := .inr (.inr rfl)

/-- What stands before in the product has this value, or nothing stands before. -/
def Before (n : Nat) : Option (LengthExpr × LengthOp) → Prop
  | none => n = 1
  | some (left, op) => left.Is n ∧ OfProduct op

def Agrees {r : Rank} (p : Phrase r) (n : Nat) : Prop :=
  (p.grouped none).Is n ∧ p.tree.Is n

/-- An expression of value one that leaves the value of what stands before it. -/
def Neutral {r : Rank} (p : Phrase r) : Prop :=
  (∀ before n, n ≤ 2 → Before n before → (p.grouped before).Is n) ∧ p.tree.Is 1

theorem result?_one {op : LengthOp} {n : Nat} (product : OfProduct op) (small : n ≤ 2) :
    result? op n 1 = some n := by
  obtain rfl | rfl | rfl : n = 0 ∨ n = 1 ∨ n = 2 := by omega
  all_goals rcases product with rfl | rfl | rfl <;> decide

theorem result?_zero {op : LengthOp} {n : Nat} (sum : op = .add ∨ op = .sub) (small : n ≤ 2) :
    result? op n 0 = some n := by
  obtain rfl | rfl | rfl : n = 0 ∨ n = 1 ∨ n = 2 := by omega
  all_goals rcases sum with rfl | rfl <;> decide

theorem neutral_of_agrees {a : Phrase .atom} (agrees : a.Agrees 1) : a.Neutral := by
  refine ⟨fun before n small held => ?_, agrees.2⟩
  rw [grouped_atom]
  cases before with
  | none =>
    obtain rfl : n = 1 := held
    exact agrees.1
  | some first => exact held.1.binary agrees.1 (result?_one held.2 small)

theorem Agrees.behind {r : Rank} {left : Phrase r} {right : Phrase .power} {op : LengthOp} {n : Nat}
    (agrees : left.Agrees n) (neutral : right.Neutral) (product : OfProduct op) (small : n ≤ 2) :
    (right.grouped (some (left.grouped none, op))).Is n ∧
      (LengthExpr.binary op left.tree right.tree).Is n :=
  ⟨neutral.1 _ n small ⟨agrees.1, product⟩, agrees.2.binary neutral.2 (result?_one product small)⟩

/-- What the numbers of an expression can do: any value up to two in both groupings, and for a factor
the value one behind any other factors. -/
def Settles : {r : Rank} → Phrase r → Prop
  | .atom, p => ∀ n, n ≤ 2 → ∃ q : Phrase .atom, q.blank = p.blank ∧ q.Agrees n
  | .power, p => (∀ n, n ≤ 2 → ∃ q : Phrase .power, q.blank = p.blank ∧ q.Agrees n) ∧
    ∃ q : Phrase .power, q.blank = p.blank ∧ q.Neutral
  | .product, p => ∀ n, n ≤ 2 → ∃ q : Phrase .product, q.blank = p.blank ∧ q.Agrees n
  | .sum, p => ∀ n, n ≤ 2 → ∃ q : Phrase .sum, q.blank = p.blank ∧ q.Agrees n

theorem settles {r : Rank} (p : Phrase r) : p.Settles := by
  -- The first number gets the value. All others are one in products and zero in sums.
  induction p with
  | literal text line unsigned =>
    intro n small
    obtain ⟨plain, value⟩ := digit_is small
    exact ⟨.literal (digit n) line plain, rfl, value, value⟩
  | group inner opened closed ih =>
    intro n small
    obtain ⟨q, same, agrees⟩ := ih n small
    exact ⟨.group q opened closed, congrArg (group · opened closed) same, agrees⟩
  | single a ih =>
    constructor
    · intro n small
      obtain ⟨q, same, agrees⟩ := ih n small
      exact ⟨.single q, congrArg single same, agrees⟩
    · obtain ⟨q, same, agrees⟩ := ih 1 (by decide)
      exact ⟨.single q, congrArg single same, neutral_of_agrees agrees⟩
  | power base exponent first second ihb ihe =>
    obtain ⟨e, sameE, keeps, one⟩ := ihe.2
    constructor
    · intro n small
      obtain ⟨b, sameB, agrees⟩ := ihb n small
      exact ⟨.power b e first second, by rw [blank_power, blank_power, sameB, sameE],
        agrees.behind ⟨keeps, one⟩ ofProduct_pow small⟩
    · obtain ⟨b, sameB, agrees⟩ := ihb 1 (by decide)
      refine ⟨.power b e first second, by rw [blank_power, blank_power, sameB, sameE], ?_, ?_⟩
      · intro before n small held
        exact keeps _ n small ⟨(neutral_of_agrees agrees).1 before n small held, ofProduct_pow⟩
      · exact agrees.2.binary one (result?_one ofProduct_pow (by decide))
  | factor p ih =>
    intro n small
    obtain ⟨q, same, agrees⟩ := ih.1 n small
    exact ⟨.factor q, congrArg factor same, agrees⟩
  | times left right line ihl ihr =>
    intro n small
    obtain ⟨l, sameL, agrees⟩ := ihl n small
    obtain ⟨r, sameR, neutral⟩ := ihr.2
    exact ⟨.times l r line, by rw [blank_times, blank_times, sameL, sameR],
      agrees.behind neutral ofProduct_mul small⟩
  | divide left right line ihl ihr =>
    intro n small
    obtain ⟨l, sameL, agrees⟩ := ihl n small
    obtain ⟨r, sameR, neutral⟩ := ihr.2
    exact ⟨.divide l r line, by rw [blank_divide, blank_divide, sameL, sameR],
      agrees.behind neutral ofProduct_div small⟩
  | term p ih =>
    intro n small
    obtain ⟨q, same, agrees⟩ := ih n small
    exact ⟨.term q, congrArg term same, agrees⟩
  | plus left right line ihl ihr =>
    intro n small
    obtain ⟨l, sameL, agreesL⟩ := ihl n small
    obtain ⟨r, sameR, agreesR⟩ := ihr 0 (by decide)
    have run := result?_zero (.inl rfl) small
    exact ⟨.plus l r line, by rw [blank_plus, blank_plus, sameL, sameR],
      agreesL.1.binary agreesR.1 run, agreesL.2.binary agreesR.2 run⟩
  | minus left right line ihl ihr =>
    intro n small
    obtain ⟨l, sameL, agreesL⟩ := ihl n small
    obtain ⟨r, sameR, agreesR⟩ := ihr 0 (by decide)
    have run := result?_zero (.inr rfl) small
    exact ⟨.minus l r line, by rw [blank_minus, blank_minus, sameL, sameR],
      agreesL.1.binary agreesR.1 run, agreesL.2.binary agreesR.2 run⟩

/-- Two groupings have these two values, in one order or the other. -/
def Parted (m n : Nat) (first second : LengthExpr) : Prop :=
  first.Is m ∧ second.Is n ∨ first.Is n ∧ second.Is m

theorem Parted.symm {m n : Nat} {first second : LengthExpr} (parted : Parted m n first second) :
    Parted n m first second :=
  Or.symm parted

theorem Parted.left {op : LengthOp} {first second right right' : LengthExpr} {m n k a b : Nat}
    (parted : Parted m n first second) (is : right.Is k) (is' : right'.Is k)
    (runM : result? op m k = some a) (runN : result? op n k = some b) :
    Parted a b (.binary op first right) (.binary op second right') := by
  rcases parted with ⟨isM, isN⟩ | ⟨isN, isM⟩
  · exact .inl ⟨isM.binary is runM, isN.binary is' runN⟩
  · exact .inr ⟨isN.binary is runN, isM.binary is' runM⟩

theorem Parted.right {op : LengthOp} {left left' first second : LengthExpr} {m n k a b : Nat}
    (is : left.Is k) (is' : left'.Is k) (parted : Parted m n first second)
    (runM : result? op k m = some a) (runN : result? op k n = some b) :
    Parted a b (.binary op left first) (.binary op left' second) := by
  rcases parted with ⟨isM, isN⟩ | ⟨isN, isM⟩
  · exact .inl ⟨is.binary isM runM, is'.binary isN runN⟩
  · exact .inr ⟨is.binary isN runN, is'.binary isM runM⟩

/-- Some numbers give an expression the one value grouped from the left and the other one by the
grammar. -/
def Parts {r : Rank} (p : Phrase r) (m n : Nat) : Prop :=
  ∃ q : Phrase r, q.blank = p.blank ∧ Parted m n (q.grouped none) q.tree

/-- With the exponent zero at its end, a power has the value one, alone and behind other factors. By the
grammar it leaves them as they are. -/
theorem exists_one_behind (base : Phrase .atom) (exponent : Phrase .power) (first second : Nat) :
    ∃ q : Phrase .power, q.blank = (power base exponent first second).blank ∧ q.tree.Is 1 ∧
      ∀ left op n, n ≤ 2 → left.Is n → OfProduct op → (q.grouped (some (left, op))).Is 1 := by
  obtain ⟨b, sameB, agrees⟩ := base.settles 1 (by decide)
  have keeps := (neutral_of_agrees agrees).1
  match exponent with
  | .single a =>
    obtain ⟨e, sameE, zero⟩ := a.settles 0 (by decide)
    have same : (power b (.single e) first second).blank =
        (power base (.single a) first second).blank := by
      rw [blank_power, blank_power, blank_single, blank_single, sameB, sameE]
    refine ⟨.power b (.single e) first second, same, agrees.2.binary zero.2 (by decide),
      fun left op n small is product => ?_⟩
    change (e.grouped (some (b.grouped (some (left, op)), .pow))).Is 1
    rw [grouped_atom]
    refine (keeps (some (left, op)) n small ⟨is, product⟩).binary zero.1 ?_
    obtain rfl | rfl | rfl : n = 0 ∨ n = 1 ∨ n = 2 := by omega
    all_goals decide
  | .power next exponent third fourth =>
    obtain ⟨e, sameE, one, falls⟩ := exists_one_behind next exponent third fourth
    refine ⟨.power b e first second, by rw [blank_power, blank_power, sameB, sameE],
      agrees.2.binary one (by decide), fun left op n small is product => ?_⟩
    exact falls _ .pow n small (keeps _ n small ⟨is, product⟩) ofProduct_pow

theorem grouped_of_isSingle {p : Phrase .power} (alone : p.IsSingle) (left : LengthExpr)
    (op : LengthOp) : p.grouped (some (left, op)) = .binary op left (p.grouped none) := by
  cases p with
  | single a => exact grouped_atom _ a
  | power base exponent first second => exact alone.elim

def Pair (m n : Nat) : Prop :=
  m = 0 ∧ n = 1 ∨ m = 1 ∧ n = 2

theorem Pair.small {m n : Nat} (pair : Pair m n) : m ≤ 2 ∧ n ≤ 2 := by
  unfold Pair at pair
  omega

theorem exists_pair_behind {op : LengthOp} (product : OfProduct op) {m n : Nat} (pair : Pair m n) :
    ∃ k a b, k ≤ 2 ∧ Pair a b ∧
      (result? op k a = some m ∧ result? op k b = some n ∨
        result? op k a = some n ∧ result? op k b = some m) := by
  unfold Pair at pair ⊢
  rcases product with rfl | rfl | rfl <;> rcases pair with ⟨rfl, rfl⟩ | ⟨rfl, rfl⟩
  · exact ⟨1, 0, 1, by decide⟩
  · exact ⟨1, 1, 2, by decide⟩
  · exact ⟨1, 1, 2, by decide⟩
  · exact ⟨2, 1, 2, by decide⟩
  · exact ⟨0, 0, 1, by decide⟩
  · exact ⟨2, 0, 1, by decide⟩

/-- Some numbers give two expressions, with an operator of a product between them, the one value grouped
from the left and the other one by the grammar. -/
def PartsBehind {r : Rank} (left : Phrase r) (op : LengthOp) (right : Phrase .power) (m n : Nat) :
    Prop :=
  ∃ (l : Phrase r) (q : Phrase .power), l.blank = left.blank ∧ q.blank = right.blank ∧
    Parted m n (q.grouped (some (l.grouped none, op))) (.binary op l.tree q.tree)

section

variable {r : Rank} {left : Phrase r} {right : Phrase .power} {op : LengthOp} {m n : Nat}

theorem parts_of_powered (product : OfProduct op) (powered : ¬right.IsSingle) (pair : Pair m n)
    (settled : ∀ k, k ≤ 2 → ∃ q : Phrase r, q.blank = left.blank ∧ q.Agrees k) :
    PartsBehind left op right m n := by
  cases right with
  | single a => exact absurd trivial powered
  | power base exponent first second =>
    obtain ⟨q, sameQ, one, falls⟩ := exists_one_behind base exponent first second
    have behind {k : Nat} (small : k ≤ 2) : ∃ l : Phrase r, l.blank = left.blank ∧
        (q.grouped (some (l.grouped none, op))).Is 1 ∧ (LengthExpr.binary op l.tree q.tree).Is k := by
      obtain ⟨l, sameL, agrees⟩ := settled k small
      exact ⟨l, sameL, falls _ op k small agrees.1 product,
        agrees.2.binary one (result?_one product small)⟩
    rcases pair with ⟨rfl, rfl⟩ | ⟨rfl, rfl⟩
    · obtain ⟨l, sameL, is, is'⟩ := behind (k := 0) (by decide)
      exact ⟨l, q, sameL, sameQ, .inr ⟨is, is'⟩⟩
    · obtain ⟨l, sameL, is, is'⟩ := behind (k := 2) (by decide)
      exact ⟨l, q, sameL, sameQ, .inl ⟨is, is'⟩⟩

theorem parts_of_left (product : OfProduct op) (alone : right.IsSingle) (pair : Pair m n)
    (parts : left.Parts m n) :
    PartsBehind left op right m n := by
  obtain ⟨l, sameL, parted⟩ := parts
  obtain ⟨q, sameQ, agrees⟩ := right.settles.1 1 (by decide)
  have aloneQ : q.IsSingle := by rwa [← isSingle_blank, sameQ, isSingle_blank]
  refine ⟨l, q, sameL, sameQ, ?_⟩
  rw [grouped_of_isSingle aloneQ]
  exact parted.left agrees.1 agrees.2 (result?_one product pair.small.1)
    (result?_one product pair.small.2)

theorem parts_of_right (product : OfProduct op) (alone : right.IsSingle) (pair : Pair m n)
    (settled : ∀ k, k ≤ 2 → ∃ q : Phrase r, q.blank = left.blank ∧ q.Agrees k)
    (parts : ∀ a b, Pair a b → right.Parts a b) :
    PartsBehind left op right m n := by
  obtain ⟨k, a, b, small, pair', results⟩ := exists_pair_behind product pair
  obtain ⟨l, sameL, agrees⟩ := settled k small
  obtain ⟨q, sameQ, parted⟩ := parts a b pair'
  have aloneQ : q.IsSingle := by rwa [← isSingle_blank, sameQ, isSingle_blank]
  refine ⟨l, q, sameL, sameQ, ?_⟩
  rw [grouped_of_isSingle aloneQ]
  rcases results with ⟨runA, runB⟩ | ⟨runA, runB⟩
  · exact .right agrees.1 agrees.2 parted runA runB
  · exact (Parted.right agrees.1 agrees.2 parted runA runB).symm

theorem parts_behind (product : OfProduct op) (pair : Pair m n)
    (settled : ∀ k, k ≤ 2 → ∃ q : Phrase r, q.blank = left.blank ∧ q.Agrees k)
    (ihl : ¬left.PowersLead → ∀ a b, Pair a b → left.Parts a b)
    (ihr : ¬right.PowersLead → ∀ a b, Pair a b → right.Parts a b)
    (misled : ¬(left.PowersLead ∧ right.PowersLead ∧ right.IsSingle)) :
    PartsBehind left op right m n := by
  -- Either the right side is a power that does not come first, or one of the sides has one inside.
  by_cases alone : right.IsSingle
  · by_cases lead : left.PowersLead
    · exact parts_of_right product alone pair settled (ihr fun leadR => misled ⟨lead, leadR, alone⟩)
    · exact parts_of_left product alone pair (ihl lead m n pair)
  · exact parts_of_powered product alone pair settled

end

/-- An expression in which a power does not come first has numbers that make the groupings differ. -/
theorem parts_of_misled {r : Rank} (p : Phrase r) (misled : ¬p.PowersLead) :
    ∀ m n, Pair m n → p.Parts m n := by
  induction p with
  | literal text line unsigned => exact absurd trivial misled
  | group inner opened closed ih =>
    intro m n pair
    obtain ⟨q, same, parted⟩ := ih misled m n pair
    exact ⟨.group q opened closed, congrArg (group · opened closed) same, parted⟩
  | single a ih =>
    intro m n pair
    obtain ⟨q, same, parted⟩ := ih misled m n pair
    exact ⟨.single q, congrArg single same, parted⟩
  | power base exponent first second ihb ihe =>
    intro m n pair
    obtain ⟨b, e, sameB, sameE, parted⟩ :=
      parts_behind ofProduct_pow pair base.settles ihb ihe misled
    exact ⟨.power b e first second, by rw [blank_power, blank_power, sameB, sameE], parted⟩
  | factor p ih =>
    intro m n pair
    obtain ⟨q, same, parted⟩ := ih misled m n pair
    exact ⟨.factor q, congrArg factor same, parted⟩
  | times left right line ihl ihr =>
    intro m n pair
    obtain ⟨l, q, sameL, sameQ, parted⟩ :=
      parts_behind ofProduct_mul pair left.settles ihl ihr misled
    exact ⟨.times l q line, by rw [blank_times, blank_times, sameL, sameQ], parted⟩
  | divide left right line ihl ihr =>
    intro m n pair
    obtain ⟨l, q, sameL, sameQ, parted⟩ :=
      parts_behind ofProduct_div pair left.settles ihl ihr misled
    exact ⟨.divide l q line, by rw [blank_divide, blank_divide, sameL, sameQ], parted⟩
  | term p ih =>
    intro m n pair
    obtain ⟨q, same, parted⟩ := ih misled m n pair
    exact ⟨.term q, congrArg term same, parted⟩
  | plus left right line ihl ihr =>
    intro m n pair
    by_cases lead : left.PowersLead
    · obtain ⟨l, sameL, agrees⟩ := left.settles 0 (by decide)
      obtain ⟨q, sameQ, parted⟩ := ihr (fun leadR => misled ⟨lead, leadR⟩) m n pair
      refine ⟨.plus l q line, by rw [blank_plus, blank_plus, sameL, sameQ], ?_⟩
      rcases pair with ⟨rfl, rfl⟩ | ⟨rfl, rfl⟩
      all_goals exact .right agrees.1 agrees.2 parted (by decide) (by decide)
    · obtain ⟨l, sameL, parted⟩ := ihl lead m n pair
      obtain ⟨q, sameQ, agrees⟩ := right.settles 0 (by decide)
      exact ⟨.plus l q line, by rw [blank_plus, blank_plus, sameL, sameQ],
        parted.left agrees.1 agrees.2 (result?_zero (.inl rfl) pair.small.1)
          (result?_zero (.inl rfl) pair.small.2)⟩
  | minus left right line ihl ihr =>
    intro m n pair
    by_cases lead : left.PowersLead
    · -- Zero and one are taken from the larger number, which turns them round.
      obtain ⟨l, sameL, agrees⟩ := left.settles n pair.small.2
      obtain ⟨q, sameQ, parted⟩ := ihr (fun leadR => misled ⟨lead, leadR⟩) 0 1 (.inl ⟨rfl, rfl⟩)
      refine ⟨.minus l q line, by rw [blank_minus, blank_minus, sameL, sameQ], ?_⟩
      rcases pair with ⟨rfl, rfl⟩ | ⟨rfl, rfl⟩
      all_goals exact (Parted.right agrees.1 agrees.2 parted (by decide) (by decide)).symm
    · obtain ⟨l, sameL, parted⟩ := ihl lead m n pair
      obtain ⟨q, sameQ, agrees⟩ := right.settles 0 (by decide)
      exact ⟨.minus l q line, by rw [blank_minus, blank_minus, sameL, sameQ],
        parted.left agrees.1 agrees.2 (result?_zero (.inr rfl) pair.small.1)
          (result?_zero (.inr rfl) pair.small.2)⟩

theorem length?_of_is {constants : Constants} {s : Phrase .sum} {n : Nat}
    (is : (s.grouped none).Is n) (small : n ≤ 2) : constants.length? s.tokens = some n := by
  have below : n < Numeral.limit64 := by
    unfold Numeral.limit64
    omega
  simp [Constants.length?, Constants.tokensValue?, s.ofTokens?_tokens, is _, below]

/-- Of the shape of this expression, all lengths are values by the grammar. -/
def Right (s : Phrase .sum) : Prop :=
  ∀ q : Phrase .sum, q.blank = s.blank → ∀ (constants : Constants) (n : Nat),
    constants.length? q.tokens = some n → q.tree.natural? = some n

theorem right_iff_powersLead (s : Phrase .sum) : s.Right ↔ s.PowersLead := by
  constructor
  · intro right
    by_cases lead : s.PowersLead
    · exact lead
    exfalso
    obtain ⟨q, same, parted⟩ := s.parts_of_misled lead 0 1 (.inl ⟨rfl, rfl⟩)
    rcases parted with ⟨is, is'⟩ | ⟨is, is'⟩
    · have value := right q same [] 0 (length?_of_is is (by decide))
      rw [LengthExpr.natural?_of_eval? q.tree_closed (is' fun _ => none)] at value
      contradiction
    · have value := right q same [] 1 (length?_of_is is (by decide))
      rw [LengthExpr.natural?_of_eval? q.tree_closed (is' fun _ => none)] at value
      contradiction
  · intro lead q same constants n run
    have leadQ : q.PowersLead := by rwa [← powersLead_blank, same, powersLead_blank]
    rw [← q.grouped_eq_tree_iff.mpr leadQ]
    exact value_of_length? run

end Phrase

/-- The length of an expression, if there is one, is its value grouped from the left. The grouping is
that of the grammar exactly when powers come first, and exactly then the length is the value by the
grammar whatever the numbers are. -/
structure PrecedenceLaw (s : Phrase .sum) : Prop where
  read : LengthExpr.ofTokens? s.tokens = some (s.grouped none)
  value : ∀ (constants : Constants) (n : Nat), constants.length? s.tokens = some n →
    (s.grouped none).natural? = some n
  by_rank_iff : s.grouped none = s.tree ↔ s.PowersLead
  right_iff : s.Right ↔ s.PowersLead

theorem lengths_right_when_powers_lead (s : Phrase .sum) : PrecedenceLaw s where
  read := s.ofTokens?_tokens
  value := fun _ _ run => value_of_length? run
  by_rank_iff := s.grouped_eq_tree_iff
  right_iff := s.right_iff_powersLead

def leadingPower : Phrase .sum :=
  .minus
    (.term (.times
      (.factor (.power (.literal "2" 1 (by decide)) (.single (.literal "3" 1 (by decide))) 1 1))
      (.single (.literal "4" 1 (by decide))) 1))
    (.divide (.factor (.single (.literal "6" 1 (by decide))))
      (.single (.group (.plus (.term (.factor (.single (.literal "1" 1 (by decide)))))
        (.factor (.single (.literal "1" 1 (by decide)))) 1) 1 1)) 1) 1

def trailingPower : Phrase .sum :=
  .term (.times (.factor (.single (.literal "2" 1 (by decide))))
    (.power (.literal "3" 1 (by decide)) (.single (.literal "2" 1 (by decide))) 1 1) 1)

theorem leading_power_length :
    Constants.length? [] leadingPower.tokens = some 29 ∧ leadingPower.tree.natural? = some 29 :=
  have lead : leadingPower.PowersLead := by simp [leadingPower, Phrase.PowersLead, Phrase.IsSingle]
  have run : Constants.length? [] leadingPower.tokens = some 29 := by decide
  ⟨run, (lengths_right_when_powers_lead leadingPower).right_iff.mpr lead leadingPower rfl [] 29 run⟩

/-- The length `2 * 3 ** 2` is 36. By the grammar it is 18. -/
theorem trailing_power_length :
    ¬∀ (constants : Constants) (s : Phrase .sum) (n : Nat),
      constants.length? s.tokens = some n → s.tree.natural? = some n := by
  intro right
  have run : Constants.length? [] trailingPower.tokens = some 36 := by decide
  have value : trailingPower.tree.natural? = some 18 := by decide
  have same := right [] trailingPower 36 run
  rw [value] at same
  simp at same

end ContractRegistry.Source
