import ContractRegistry.Source.Contract

/-!
The names that lengths and types refer to.

A length refers to the constants that are words among its tokens: if it is read at all, no word is left
out. So the value of a length depends on the values of its words only, and it has none unless each of
them has one.
-/
namespace ContractRegistry.Source

def words (ts : List Token) : List String :=
  ts.filterMap Token.word?

@[simp]
theorem words_punct (c : Char) (line : Nat) (ts : List Token) :
    words (⟨.punct c, line⟩ :: ts) = words ts := rfl

def unopened (names opened : List String) : Nat :=
  (names.filter (· ∉ opened)).length

theorem unopened_le_length (names opened : List String) : unopened names opened ≤ names.length :=
  List.length_filter_le _ _

theorem unopened_lt {names opened : List String} {name : String} (mem : name ∈ names)
    (closed : name ∉ opened) : unopened names (name :: opened) < unopened names opened := by
  have fewer : names.filter (· ∉ name :: opened) = (names.filter (· ∉ opened)).filter (· ≠ name) := by
    rw [List.filter_filter]
    simp
  unfold unopened
  rw [fewer, List.length_filter_lt_length_iff_exists]
  exact ⟨name, by simp [mem, closed], by simp⟩

namespace LengthExpr

def names : LengthExpr → List String
  | .literal _ => []
  | .constant name => [name]
  | .binary _ left right => left.names ++ right.names

/-- Reading takes the words of tokens over into the grouping, in order. -/
structure ReadsNames (steps : Nat) : Prop where
  sum : ∀ {ts e rest}, LengthExpr.sum steps ts = some (e, rest) → words ts = e.names ++ words rest
  sumFrom : ∀ {left ts e rest}, LengthExpr.sumFrom steps left ts = some (e, rest) →
    left.names ++ words ts = e.names ++ words rest
  product : ∀ {ts e rest}, LengthExpr.product steps ts = some (e, rest) →
    words ts = e.names ++ words rest
  productFrom : ∀ {left ts e rest}, LengthExpr.productFrom steps left ts = some (e, rest) →
    left.names ++ words ts = e.names ++ words rest
  atom : ∀ {ts e rest}, LengthExpr.atom steps ts = some (e, rest) → words ts = e.names ++ words rest

theorem names_joined {next : List Token → Read} {more : LengthExpr → List Token → Read}
    (nextNames : ∀ {ts e rest}, next ts = some (e, rest) → words ts = e.names ++ words rest)
    (moreNames : ∀ {left ts e rest}, more left ts = some (e, rest) →
      left.names ++ words ts = e.names ++ words rest)
    {op : LengthOp} {left e : LengthExpr} {ts rest : List Token}
    (run : ((next ts).bind fun r => more (.binary op left r.1) r.2) = some (e, rest)) :
    left.names ++ words ts = e.names ++ words rest := by
  obtain ⟨⟨right, between⟩, first, run⟩ := Option.bind_eq_some_iff.mp run
  rw [nextNames first, ← moreNames run, names, List.append_assoc]

theorem sumFrom_names {steps : Nat} (ih : ReadsNames steps) {left e : LengthExpr} {ts rest : List Token}
    (run : LengthExpr.sumFrom (steps + 1) left ts = some (e, rest)) :
    left.names ++ words ts = e.names ++ words rest := by
  unfold LengthExpr.sumFrom at run
  split at run
  · contradiction
  · rename_i same
    cases same
    rw [words_punct]
    exact names_joined ih.product ih.sumFrom run
  · rename_i same
    cases same
    rw [words_punct]
    exact names_joined ih.product ih.sumFrom run
  · cases run
    rfl

theorem productFrom_names {steps : Nat} (ih : ReadsNames steps) {left e : LengthExpr}
    {ts rest : List Token} (run : LengthExpr.productFrom (steps + 1) left ts = some (e, rest)) :
    left.names ++ words ts = e.names ++ words rest := by
  unfold LengthExpr.productFrom at run
  split at run
  · contradiction
  · rename_i same
    cases same
    rw [words_punct, words_punct]
    exact names_joined ih.atom ih.productFrom run
  · rename_i same
    cases same
    rw [words_punct]
    exact names_joined ih.atom ih.productFrom run
  · rename_i same
    cases same
    rw [words_punct]
    exact names_joined ih.atom ih.productFrom run
  · cases run
    rfl

theorem atom_names {steps : Nat} (ih : ReadsNames steps) {e : LengthExpr} {ts rest : List Token}
    (run : LengthExpr.atom (steps + 1) ts = some (e, rest)) : words ts = e.names ++ words rest := by
  unfold LengthExpr.atom at run
  split at run
  · contradiction
  · cases run
    rfl
  · cases run
    rfl
  · rename_i same
    cases same
    obtain ⟨⟨inner, between⟩, first, run⟩ := Option.bind_eq_some_iff.mp run
    dsimp only at run
    split at run
    · cases run
      rw [words_punct, ih.sum first, words_punct]
    · contradiction
  · contradiction

theorem readsNames (steps : Nat) : ReadsNames steps := by
  -- All five readers at once, since each of them calls the next one.
  induction steps with
  | zero => constructor <;> intros <;> contradiction
  | succ steps ih =>
    refine ⟨fun run => ?_, sumFrom_names ih, fun run => ?_, productFrom_names ih, atom_names ih⟩
    · obtain ⟨⟨left, between⟩, first, run⟩ := Option.bind_eq_some_iff.mp run
      rw [ih.product first]
      exact ih.sumFrom run
    · obtain ⟨⟨left, between⟩, first, run⟩ := Option.bind_eq_some_iff.mp run
      rw [ih.atom first]
      exact ih.productFrom run

theorem names_of_ofTokens? {ts : List Token} {e : LengthExpr} (run : ofTokens? ts = some e) :
    e.names = words ts := by
  obtain ⟨⟨read, rest⟩, first, run⟩ := Option.bind_eq_some_iff.mp run
  dsimp only at run
  split at run
  · rename_i all
    cases run
    rw [(readsNames _).sum first, all]
    exact (List.append_nil _).symm
  · contradiction

theorem eval?_congr {value? value?' : String → Option Nat} {e : LengthExpr}
    (agree : ∀ name ∈ e.names, value? name = value?' name) : e.eval? value? = e.eval? value?' := by
  induction e with
  | literal text => rfl
  | constant name => exact agree name (List.mem_singleton_self name)
  | binary op left right ihl ihr =>
    simp only [eval?]
    rw [ihl fun name mem => agree name (List.mem_append_left _ mem),
      ihr fun name mem => agree name (List.mem_append_right _ mem)]

theorem names_valued {value? : String → Option Nat} {e : LengthExpr} {n : Nat}
    (run : e.eval? value? = some n) : ∀ name ∈ e.names, ∃ m, value? name = some m := by
  induction e generalizing n with
  | literal text => simp [names]
  | constant name =>
    intro other mem
    rw [List.mem_singleton.mp mem]
    exact ⟨n, run⟩
  | binary op left right ihl ihr =>
    obtain ⟨a, first, run⟩ := Option.bind_eq_some_iff.mp run
    obtain ⟨b, second, run⟩ := Option.bind_eq_some_iff.mp run
    intro name mem
    rcases List.mem_append.mp mem with mem | mem
    · exact ihl first name mem
    · exact ihr second name mem

end LengthExpr

namespace Constants

theorem tokensValue?_congr {value? value?' : String → Option Nat} {ts : List Token}
    (agree : ∀ name ∈ words ts, value? name = value?' name) :
    tokensValue? value? ts = tokensValue? value?' ts := by
  unfold tokensValue?
  cases run : LengthExpr.ofTokens? ts with
  | none => rfl
  | some e =>
    rw [← LengthExpr.names_of_ofTokens? run] at agree
    rw [Option.bind_eq_bind, Option.bind_some, Option.bind_eq_bind, Option.bind_some,
      LengthExpr.eval?_congr agree]

theorem words_valued {value? : String → Option Nat} {ts : List Token} {n : Nat}
    (run : tokensValue? value? ts = some n) : ∀ name ∈ words ts, ∃ m, value? name = some m := by
  obtain ⟨e, read, run⟩ := Option.bind_eq_some_iff.mp run
  obtain ⟨m, evaluated, run⟩ := Option.bind_eq_some_iff.mp run
  rw [← LengthExpr.names_of_ofTokens? read]
  exact LengthExpr.names_valued evaluated

end Constants

namespace TypeExpr

def names : TypeExpr → List String
  | .named name _ => [name]
  | .mapping key value => key.names ++ value.names
  | .array element _ _ => element.names
  | .function _ => []

def lengths : TypeExpr → List (List Token)
  | .named _ _ => []
  | .mapping key value => key.lengths ++ value.lengths
  | .array element length _ => length.toList ++ element.lengths
  | .function _ => []

end TypeExpr

end ContractRegistry.Source
