import ContractRegistry.Proofs.Source.Phrase

/-!
How the lengths of arrays are grouped.

A length is read with two ranks of operators: powers, products and quotients are of one rank and group
from the left. Every arithmetic expression is read, and its grouping is that of the grammar exactly when
every power comes first in its product.
-/
namespace ContractRegistry.Source

namespace Phrase

/-- What an atom becomes behind an operator and all that stands before it in its product. -/
def join : Option (LengthExpr × LengthOp) → LengthExpr → LengthExpr
  | none, e => e
  | some (left, op), e => .binary op left e

/-- The grouping from the left, behind what stands before in the product. -/
def grouped : {r : Rank} → Option (LengthExpr × LengthOp) → Phrase r → LengthExpr
  | _, before, .literal text _ _ => join before (.literal text)
  | _, before, .group inner _ _ => join before (inner.grouped none)
  | _, before, .single a => a.grouped before
  | _, before, .power base exponent _ _ => exponent.grouped (some (base.grouped before, .pow))
  | _, before, .factor p => p.grouped before
  | _, before, .times left right _ => right.grouped (some (left.grouped before, .mul))
  | _, before, .divide left right _ => right.grouped (some (left.grouped before, .div))
  | _, before, .term p => p.grouped before
  | _, before, .plus left right _ => .binary .add (left.grouped before) (right.grouped none)
  | _, before, .minus left right _ => .binary .sub (left.grouped before) (right.grouped none)

theorem grouped_atom (before : Option (LengthExpr × LengthOp)) (a : Phrase .atom) :
    a.grouped before = join before (a.grouped none) := by
  cases a <;> rfl

end Phrase

namespace LengthExpr

open Phrase

/-- Reads an atom behind what stands before it, and goes on with the product. -/
def follow (before : Option (LengthExpr × LengthOp)) : Nat → List Token → Read
  | 0, _ => none
  | steps + 1, ts => do
    let (e, ts) ← atom steps ts
    productFrom steps (join before e) ts

theorem product_eq_follow (steps : Nat) (ts : List Token) : product steps ts = follow none steps ts := by
  cases steps <;> rfl

def Opens : List Token → Prop
  | ⟨.number _, _⟩ :: _ => True
  | ⟨.punct '(', _⟩ :: _ => True
  | _ => False

theorem atom_opened (steps line : Nat) (ts : List Token) :
    atom (steps + 1) (⟨.punct '(', line⟩ :: ts) = (do
      let (e, ts) ← LengthExpr.sum steps ts
      match ts with
      | ⟨.punct ')', _⟩ :: ts => some (e, ts)
      | _ => none) := rfl

theorem productFrom_power (left : LengthExpr) (steps first second : Nat) (ts : List Token) :
    productFrom (steps + 1) left (⟨.punct '*', first⟩ :: ⟨.punct '*', second⟩ :: ts) =
      follow (some (left, .pow)) (steps + 1) ts := rfl

theorem productFrom_divide (left : LengthExpr) (steps line : Nat) (ts : List Token) :
    productFrom (steps + 1) left (⟨.punct '/', line⟩ :: ts) =
      follow (some (left, .div)) (steps + 1) ts := rfl

theorem productFrom_times (left : LengthExpr) (steps line : Nat) {ts : List Token} (opens : Opens ts) :
    productFrom (steps + 1) left (⟨.punct '*', line⟩ :: ts) =
      follow (some (left, .mul)) (steps + 1) ts := by
  unfold Opens at opens
  split at opens
  · rfl
  · rfl
  · exact opens.elim

theorem sum_step (steps : Nat) (ts : List Token) :
    LengthExpr.sum (steps + 1) ts = (do
      let (e, ts) ← product steps ts
      sumFrom steps e ts) := rfl

theorem sumFrom_plus (left : LengthExpr) (steps line : Nat) (ts : List Token) :
    sumFrom (steps + 1) left (⟨.punct '+', line⟩ :: ts) = (do
      let (right, ts) ← product steps ts
      sumFrom steps (.binary .add left right) ts) := rfl

theorem sumFrom_minus (left : LengthExpr) (steps line : Nat) (ts : List Token) :
    sumFrom (steps + 1) left (⟨.punct '-', line⟩ :: ts) = (do
      let (right, ts) ← product steps ts
      sumFrom steps (.binary .sub left right) ts) := rfl

end LengthExpr

namespace Phrase

open LengthExpr

theorem tokens_open {r : Rank} (p : Phrase r) (rest : List Token) : Opens (p.tokens ++ rest) := by
  induction p generalizing rest with
  | literal text line unsigned => trivial
  | group inner opened closed ih => trivial
  | single a ih => exact ih rest
  | power base exponent first second ihb ihe => simpa [tokens_power] using ihb _
  | factor p ih => exact ih rest
  | times left right line ihl ihr => simpa [tokens_times] using ihl _
  | divide left right line ihl ihr => simpa [tokens_divide] using ihl _
  | term p ih => exact ih rest
  | plus left right line ihl ihr => simpa [tokens_plus] using ihl _
  | minus left right line ihl ihr => simpa [tokens_minus] using ihl _

theorem tokens_length_pos {r : Rank} (p : Phrase r) : 0 < p.tokens.length := by
  have opens := p.tokens_open []
  cases written : p.tokens with
  | nil => simp [written, Opens] at opens
  | cons t ts => exact Nat.zero_lt_succ _

def EndsProduct (rest : List Token) : Prop :=
  ∀ steps e, productFrom (steps + 1) e rest = some (e, rest)

def EndsSum (rest : List Token) : Prop :=
  ∀ steps e, sumFrom (steps + 1) e rest = some (e, rest)

theorem endsProduct_nil : EndsProduct [] := fun _ _ => rfl

theorem endsProduct_closed (line : Nat) (rest : List Token) :
    EndsProduct (⟨.punct ')', line⟩ :: rest) := fun _ _ => rfl

theorem endsProduct_plus (line : Nat) (rest : List Token) :
    EndsProduct (⟨.punct '+', line⟩ :: rest) := fun _ _ => rfl

theorem endsProduct_minus (line : Nat) (rest : List Token) :
    EndsProduct (⟨.punct '-', line⟩ :: rest) := fun _ _ => rfl

theorem endsSum_nil : EndsSum [] := fun _ _ => rfl

theorem endsSum_closed (line : Nat) (rest : List Token) : EndsSum (⟨.punct ')', line⟩ :: rest) :=
  fun _ _ => rfl

/-- What is read of a phrase that stands before other tokens, with three steps for each of its tokens
and no more than one of them used up for each. An atom is read alone, a power or a product behind what
stands before it in its product, and a sum before what ends a product. -/
def ReadAs : {r : Rank} → Phrase r → Prop
  | .atom, a => ∀ steps rest, 3 * a.tokens.length ≤ steps →
    LengthExpr.atom steps (a.tokens ++ rest) = some (a.grouped none, rest)
  | .power, p => ∀ before steps rest, 3 * p.tokens.length + 1 ≤ steps →
    ∃ left, steps ≤ left + p.tokens.length ∧
      follow before steps (p.tokens ++ rest) = productFrom left (p.grouped before) rest
  | .product, p => ∀ before steps rest, 3 * p.tokens.length + 1 ≤ steps →
    ∃ left, steps ≤ left + p.tokens.length ∧
      follow before steps (p.tokens ++ rest) = productFrom left (p.grouped before) rest
  | .sum, s => ∀ steps rest, 3 * s.tokens.length + 2 ≤ steps → EndsProduct rest →
    ∃ left, steps ≤ left + s.tokens.length ∧
      LengthExpr.sum steps (s.tokens ++ rest) = sumFrom left (s.grouped none) rest

theorem product_read {p : Phrase .product} (ih : p.ReadAs) {steps : Nat} {rest : List Token}
    (enough : 3 * p.tokens.length + 1 ≤ steps) (ends : EndsProduct rest) :
    LengthExpr.product steps (p.tokens ++ rest) = some (p.grouped none, rest) := by
  obtain ⟨left, used, read⟩ := ih none steps rest enough
  obtain ⟨more, rfl⟩ : ∃ more, left = more + 1 := ⟨left - 1, by omega⟩
  rw [product_eq_follow, read]
  exact ends more _

theorem readAs_group {inner : Phrase .sum} (ih : inner.ReadAs) (opened closed : Nat) :
    (group inner opened closed).ReadAs := by
  intro steps rest enough
  simp only [tokens_group, List.cons_append, List.append_assoc, List.length_cons, List.length_append,
    List.length_nil] at enough ⊢
  obtain ⟨k, rfl⟩ : ∃ k, steps = k + 1 := ⟨steps - 1, by omega⟩
  obtain ⟨left, used, read⟩ := ih k (⟨.punct ')', closed⟩ :: rest) (by omega)
    (endsProduct_closed closed rest)
  obtain ⟨more, rfl⟩ : ∃ more, left = more + 1 := ⟨left - 1, by omega⟩
  rw [endsSum_closed closed rest more] at read
  rw [atom_opened, List.nil_append, read]
  rfl

theorem readAs_single {a : Phrase .atom} (ih : a.ReadAs) : (single a).ReadAs := by
  intro before steps rest enough
  change 3 * a.tokens.length + 1 ≤ steps at enough
  have := a.tokens_length_pos
  obtain ⟨k, rfl⟩ : ∃ k, steps = k + 1 := ⟨steps - 1, by omega⟩
  refine ⟨k, ?_, ?_⟩
  · change k + 1 ≤ k + a.tokens.length
    omega
  · change follow before (k + 1) (a.tokens ++ rest) = productFrom k (a.grouped before) rest
    rw [grouped_atom, follow, ih k rest (by omega)]
    rfl

theorem readAs_power {base : Phrase .atom} {exponent : Phrase .power} (ihb : base.ReadAs)
    (ihe : exponent.ReadAs) (first second : Nat) : (power base exponent first second).ReadAs := by
  intro before steps rest enough
  simp only [tokens_power, List.append_assoc, List.cons_append, List.length_append, List.length_cons]
    at enough ⊢
  obtain ⟨k, used, read⟩ := readAs_single ihb before steps
    (⟨.punct '*', first⟩ :: ⟨.punct '*', second⟩ :: (exponent.tokens ++ rest))
    (by change 3 * base.tokens.length + 1 ≤ steps; omega)
  change steps ≤ k + base.tokens.length at used
  change follow before steps (base.tokens ++ _) = productFrom k (base.grouped before) _ at read
  obtain ⟨more, rfl⟩ : ∃ more, k = more + 1 := ⟨k - 1, by omega⟩
  rw [productFrom_power] at read
  obtain ⟨left, usedE, readE⟩ := ihe (some (base.grouped before, .pow)) (more + 1) rest (by omega)
  exact ⟨left, by omega, read.trans readE⟩

theorem read_factor {left : Phrase .product} {right : Phrase .power} {op : LengthOp} {t : Token}
    (ihl : left.ReadAs) (ihr : right.ReadAs)
    (step : ∀ e steps ts, Opens ts →
      productFrom (steps + 1) e (t :: ts) = follow (some (e, op)) (steps + 1) ts)
    (before : Option (LengthExpr × LengthOp)) (steps : Nat) (rest : List Token)
    (enough : 3 * (left.tokens ++ t :: right.tokens).length + 1 ≤ steps) :
    ∃ more, steps ≤ more + (left.tokens ++ t :: right.tokens).length ∧
      follow before steps (left.tokens ++ t :: right.tokens ++ rest) =
        productFrom more (right.grouped (some (left.grouped before, op))) rest := by
  simp only [List.append_assoc, List.cons_append, List.length_append, List.length_cons] at enough ⊢
  obtain ⟨k, used, read⟩ := ihl before steps (t :: (right.tokens ++ rest)) (by omega)
  obtain ⟨next, rfl⟩ : ∃ next, k = next + 1 := ⟨k - 1, by omega⟩
  rw [step _ _ _ (right.tokens_open rest)] at read
  obtain ⟨more, usedR, readR⟩ := ihr (some (left.grouped before, op)) (next + 1) rest (by omega)
  exact ⟨more, by omega, read.trans readR⟩

theorem readAs_times {left : Phrase .product} {right : Phrase .power} (ihl : left.ReadAs)
    (ihr : right.ReadAs) (line : Nat) : (times left right line).ReadAs :=
  read_factor ihl ihr fun e steps _ opens => productFrom_times e steps line opens

theorem readAs_divide {left : Phrase .product} {right : Phrase .power} (ihl : left.ReadAs)
    (ihr : right.ReadAs) (line : Nat) : (divide left right line).ReadAs :=
  read_factor ihl ihr fun e steps ts _ => productFrom_divide e steps line ts

theorem readAs_term {p : Phrase .product} (ih : p.ReadAs) : (term p).ReadAs := by
  intro steps rest enough ends
  change 3 * p.tokens.length + 2 ≤ steps at enough
  have := p.tokens_length_pos
  obtain ⟨k, rfl⟩ : ∃ k, steps = k + 1 := ⟨steps - 1, by omega⟩
  refine ⟨k, ?_, ?_⟩
  · change k + 1 ≤ k + p.tokens.length
    omega
  · change LengthExpr.sum (k + 1) (p.tokens ++ rest) = sumFrom k (p.grouped none) rest
    rw [sum_step, product_read ih (by omega) ends]
    rfl

theorem read_term {left : Phrase .sum} {right : Phrase .product} {op : LengthOp} {t : Token}
    (ihl : left.ReadAs) (ihr : right.ReadAs) (stops : ∀ ts, EndsProduct (t :: ts))
    (step : ∀ e steps ts, sumFrom (steps + 1) e (t :: ts) = (do
      let (r, ts) ← product steps ts
      sumFrom steps (.binary op e r) ts))
    (steps : Nat) (rest : List Token)
    (enough : 3 * (left.tokens ++ t :: right.tokens).length + 2 ≤ steps) (ends : EndsProduct rest) :
    ∃ more, steps ≤ more + (left.tokens ++ t :: right.tokens).length ∧
      LengthExpr.sum steps (left.tokens ++ t :: right.tokens ++ rest) =
        sumFrom more (.binary op (left.grouped none) (right.grouped none)) rest := by
  simp only [List.append_assoc, List.cons_append, List.length_append, List.length_cons] at enough ⊢
  obtain ⟨k, used, read⟩ := ihl steps (t :: (right.tokens ++ rest)) (by omega) (stops _)
  obtain ⟨more, rfl⟩ : ∃ more, k = more + 1 := ⟨k - 1, by omega⟩
  refine ⟨more, by omega, read.trans ?_⟩
  rw [step, product_read ihr (by omega) ends]
  rfl

theorem readAs_plus {left : Phrase .sum} {right : Phrase .product} (ihl : left.ReadAs)
    (ihr : right.ReadAs) (line : Nat) : (plus left right line).ReadAs :=
  read_term ihl ihr (endsProduct_plus line) fun e steps ts => sumFrom_plus e steps line ts

theorem readAs_minus {left : Phrase .sum} {right : Phrase .product} (ihl : left.ReadAs)
    (ihr : right.ReadAs) (line : Nat) : (minus left right line).ReadAs :=
  read_term ihl ihr (endsProduct_minus line) fun e steps ts => sumFrom_minus e steps line ts

theorem readAs {r : Rank} (p : Phrase r) : p.ReadAs := by
  -- One case for each rule. What stands before a factor travels along in `before`, because the next
  -- operator of the product closes over all of it.
  induction p with
  | literal text line unsigned =>
    intro steps rest enough
    change 3 * 1 ≤ steps at enough
    obtain ⟨k, rfl⟩ : ∃ k, steps = k + 1 := ⟨steps - 1, by omega⟩
    rfl
  | group inner opened closed ih => exact readAs_group ih opened closed
  | single a ih => exact readAs_single ih
  | power base exponent first second ihb ihe => exact readAs_power ihb ihe first second
  | factor p ih => exact ih
  | times left right line ihl ihr => exact readAs_times ihl ihr line
  | divide left right line ihl ihr => exact readAs_divide ihl ihr line
  | term p ih => exact readAs_term ih
  | plus left right line ihl ihr => exact readAs_plus ihl ihr line
  | minus left right line ihl ihr => exact readAs_minus ihl ihr line

theorem ofTokens?_tokens (s : Phrase .sum) : ofTokens? s.tokens = some (s.grouped none) := by
  obtain ⟨left, used, read⟩ := s.readAs (3 * s.tokens.length + 3) [] (by omega) endsProduct_nil
  obtain ⟨more, rfl⟩ : ∃ more, left = more + 1 := ⟨left - 1, by omega⟩
  rw [List.append_nil, endsSum_nil more] at read
  simp [ofTokens?, read]

end Phrase

def LengthExpr.size : LengthExpr → Nat
  | .literal _ => 1
  | .constant _ => 1
  | .binary _ left right => left.size + right.size

namespace Phrase

def sizeBefore : Option (LengthExpr × LengthOp) → Nat
  | none => 0
  | some (left, _) => left.size

theorem size_join (before : Option (LengthExpr × LengthOp)) (e : LengthExpr) :
    (join before e).size = sizeBefore before + e.size := by
  cases before with
  | none => exact (Nat.zero_add _).symm
  | some first => rfl

theorem size_grouped {r : Rank} (before : Option (LengthExpr × LengthOp)) (p : Phrase r) :
    (p.grouped before).size = sizeBefore before + p.tree.size := by
  have joined {left right : LengthExpr} {a b c : Nat} (first : left.size = a + b)
      (second : right.size = left.size + c) : right.size = a + (b + c) := by omega
  have summed {left right : LengthExpr} {a b c : Nat} (op : LengthOp) (first : left.size = a + b)
      (second : right.size = 0 + c) : (LengthExpr.binary op left right).size = a + (b + c) := by
    change left.size + right.size = _
    omega
  induction p generalizing before with
  | literal text line unsigned => exact size_join before _
  | group inner opened closed ih =>
    have same := ih none
    exact (size_join before _).trans (by rw [same, sizeBefore, Nat.zero_add]; rfl)
  | single a ih => exact ih before
  | power base exponent first second ihb ihe => exact joined (ihb before) (ihe (some (_, .pow)))
  | factor p ih => exact ih before
  | times left right line ihl ihr => exact joined (ihl before) (ihr (some (_, .mul)))
  | divide left right line ihl ihr => exact joined (ihl before) (ihr (some (_, .div)))
  | term p ih => exact ih before
  | plus left right line ihl ihr => exact summed .add (ihl before) (ihr none)
  | minus left right line ihl ihr => exact summed .sub (ihl before) (ihr none)

theorem tree_size_pos {r : Rank} (p : Phrase r) : 0 < p.tree.size := by
  induction p with
  | literal text line unsigned => exact Nat.zero_lt_one
  | group inner opened closed ih => exact ih
  | single a ih => exact ih
  | power base exponent first second ihb ihe => exact Nat.add_pos_left ihb _
  | factor p ih => exact ih
  | times left right line ihl ihr => exact Nat.add_pos_left ihl _
  | divide left right line ihl ihr => exact Nat.add_pos_left ihl _
  | term p ih => exact ih
  | plus left right line ihl ihr => exact Nat.add_pos_left ihl _
  | minus left right line ihl ihr => exact Nat.add_pos_left ihl _

theorem grouped_power (before : Option (LengthExpr × LengthOp)) (base : Phrase .atom)
    (exponent : Phrase .power) (first second : Nat) :
    ∃ left right, (power base exponent first second).grouped before = .binary .pow left right ∧
      right.size < (power base exponent first second).tree.size := by
  match exponent with
  | .single a =>
    refine ⟨base.grouped before, a.grouped none, grouped_atom _ a, ?_⟩
    have := base.tree_size_pos
    rw [size_grouped]
    change 0 + a.tree.size < base.tree.size + a.tree.size
    omega
  | .power next exponent third fourth =>
    obtain ⟨left, right, grouped, smaller⟩ :=
      grouped_power (some (base.grouped before, .pow)) next exponent third fourth
    exact ⟨left, right, grouped, Nat.lt_add_left _ smaller⟩

theorem grouped_behind_iff (left e : LengthExpr) (op : LengthOp) (p : Phrase .power) :
    p.grouped (some (left, op)) = .binary op e p.tree ↔
      left = e ∧ p.grouped none = p.tree ∧ p.IsSingle := by
  cases p with
  | single a =>
    change a.grouped (some (left, op)) = .binary op e a.tree ↔ left = e ∧ a.grouped none = a.tree ∧ True
    rw [grouped_atom]
    simp [join]
  | power base exponent first second =>
    -- The right side is the last atom from the left, and the whole power by the grammar.
    obtain ⟨l, r, grouped, smaller⟩ := grouped_power (some (left, op)) base exponent first second
    refine ⟨fun same => ?_, fun lead => lead.2.2.elim⟩
    rw [grouped] at same
    injection same with _ _ right
    rw [right] at smaller
    exact absurd smaller (Nat.lt_irrefl _)

theorem binary_eq_iff (op : LengthOp) {left left' right right' : LengthExpr} :
    LengthExpr.binary op left right = .binary op left' right' ↔ left = left' ∧ right = right' := by
  simp

theorem grouped_eq_tree_iff {r : Rank} (p : Phrase r) :
    p.grouped none = p.tree ↔ p.PowersLead := by
  induction p with
  | literal text line unsigned => exact ⟨fun _ => trivial, fun _ => rfl⟩
  | group inner opened closed ih => exact ih
  | single a ih => exact ih
  | power base exponent first second ihb ihe =>
    exact (grouped_behind_iff _ _ .pow exponent).trans (by rw [ihb, ihe]; rfl)
  | factor p ih => exact ih
  | times left right line ihl ihr =>
    exact (grouped_behind_iff _ _ .mul right).trans (by rw [ihl, ihr]; rfl)
  | divide left right line ihl ihr =>
    exact (grouped_behind_iff _ _ .div right).trans (by rw [ihl, ihr]; rfl)
  | term p ih => exact ih
  | plus left right line ihl ihr => exact (binary_eq_iff .add).trans (and_congr ihl ihr)
  | minus left right line ihl ihr => exact (binary_eq_iff .sub).trans (and_congr ihl ihr)

theorem grouped_closed {r : Rank} (p : Phrase r) {before : Option (LengthExpr × LengthOp)}
    (closed : ∀ first ∈ before, first.1.Closed) : (p.grouped before).Closed := by
  induction p generalizing before with
  | literal text line unsigned =>
    cases before with
    | none => exact unsigned
    | some first => exact ⟨closed first rfl, unsigned⟩
  | group inner opened shut ih =>
    cases before with
    | none => exact ih (by simp)
    | some first => exact ⟨closed first rfl, ih (by simp)⟩
  | single a ih => exact ih closed
  | power base exponent first second ihb ihe => exact ihe (by simpa using ihb closed)
  | factor p ih => exact ih closed
  | times left right line ihl ihr => exact ihr (by simpa using ihl closed)
  | divide left right line ihl ihr => exact ihr (by simpa using ihl closed)
  | term p ih => exact ih closed
  | plus left right line ihl ihr => exact ⟨ihl closed, ihr (by simp)⟩
  | minus left right line ihl ihr => exact ⟨ihl closed, ihr (by simp)⟩

end Phrase

theorem value_of_length? {constants : Constants} {s : Phrase .sum} {n : Nat}
    (run : constants.length? s.tokens = some n) : (s.grouped none).natural? = some n := by
  obtain ⟨e, read, run⟩ := Option.bind_eq_some_iff.mp run
  obtain ⟨value, evaluated, run⟩ := Option.bind_eq_some_iff.mp run
  rw [← Option.some.inj (s.ofTokens?_tokens.symm.trans read)] at evaluated
  split at run
  · rw [← Option.some.inj run]
    exact LengthExpr.natural?_of_eval? (s.grouped_closed (by simp)) evaluated
  · simp at run

end ContractRegistry.Source
