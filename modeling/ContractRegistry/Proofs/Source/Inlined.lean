import ContractRegistry.Proofs.Source.Constants
import ContractRegistry.Proofs.Source.Respelled
import Mathlib.Logic.Relation

/-!
A constant is worth its initial value in parentheses, if that has 64 bits.

The value of a constant is kept in 64 bits, as a length is, while a sum in parentheses may have 128. So a
constant with a larger value has none, and what it is used for has no length, even where its initial value
in its place gives one. All other constants can be opened in place. A constant that depends on itself has no
value, and neither has anything that depends on it.
-/
namespace ContractRegistry.Source

/-- Tokens with the initial value of a constant in parentheses in all places of its name. -/
def inlined (name : String) (init ts : List Token) : List Token :=
  ts.flatMap (LengthExpr.inParens name init)

namespace Constants

def Refers (constants : Constants) (name word : String) : Prop :=
  ∃ ts, constants.init? name = some ts ∧ word ∈ words ts

/-- A constant that depends on one that depends on itself. -/
def Endless (constants : Constants) (name : String) : Prop :=
  ∃ looped, Relation.ReflTransGen constants.Refers name looped ∧
    Relation.TransGen constants.Refers looped looped

def number? (constants : Constants) (name : String) : Option Nat :=
  constants.value? (constants.length + 1) [] name

variable {constants : Constants}

theorem length?_eq (constants : Constants) (ts : List Token) :
    constants.length? ts = tokensValue? constants.number? ts := rfl

theorem tokensValue?_read {ts : List Token} {e : LengthExpr} (read : LengthExpr.ofTokens? ts = some e)
    (value? : String → Option Nat) :
    tokensValue? value? ts = (e.eval? value?).filter (· < Numeral.limit64) := by
  simp only [tokensValue?, read, Option.bind_eq_bind, Option.bind_some]
  cases e.eval? value? with
  | none => rfl
  | some n =>
    simp only [Option.bind_some, Option.filter]
    by_cases small : n < Numeral.limit64 <;> simp [small]

theorem endless_step {name : String} (endless : constants.Endless name) :
    ∃ word, constants.Refers name word ∧ constants.Endless word := by
  obtain ⟨looped, path, cycle⟩ := endless
  rcases Relation.ReflTransGen.cases_head path with rfl | ⟨word, refers, onward⟩
  · obtain ⟨word, refers, back⟩ := Relation.TransGen.head'_iff.mp cycle
    exact ⟨word, refers, name, back, cycle⟩
  · exact ⟨word, refers, looped, onward, cycle⟩

theorem eval?_none {value? : String → Option Nat} {e : LengthExpr} {name : String} (within : name ∈ e.names)
    (unknown : value? name = none) : e.eval? value? = none := by
  cases run : e.eval? value? with
  | none => rfl
  | some n =>
    obtain ⟨m, known⟩ := LengthExpr.names_valued run name within
    rw [unknown] at known
    contradiction

theorem tokensValue?_none {value? : String → Option Nat} {ts : List Token} {word : String}
    (within : word ∈ words ts) (unknown : value? word = none) : tokensValue? value? ts = none := by
  cases read : LengthExpr.ofTokens? ts with
  | none => simp only [tokensValue?, read, Option.bind_eq_bind, Option.bind_none]
  | some e =>
    rw [← LengthExpr.names_of_ofTokens? read] at within
    rw [tokensValue?_read read, eval?_none within unknown]
    rfl

theorem value?_endless {name : String} (endless : constants.Endless name) (depth : Nat)
    (opened : List String) : constants.value? depth opened name = none := by
  induction depth generalizing opened name with
  | zero => rfl
  | succ depth ih =>
    simp only [value?]
    split
    · rfl
    · obtain ⟨word, ⟨ts, found, within⟩, onward⟩ := endless_step endless
      rw [found]
      exact tokensValue?_none within (ih onward (name :: opened))

theorem agree_unreached (constants : Constants) (name : String) :
    Agree (fun word => ¬ Relation.ReflTransGen constants.Refers word name) constants constants where
  init _ _ := rfl
  closed _ ts unreached found _ within path :=
    unreached (Relation.ReflTransGen.head ⟨ts, found, within⟩ path)

theorem number?_eq_length? {name : String} {init : List Token} (found : constants.init? name = some init)
    (acyclic : ¬ Relation.TransGen constants.Refers name name) :
    constants.number? name = constants.length? init := by
  have fewer := unopened_lt (mem_names_of_init? found) (List.not_mem_nil (a := name))
  have enough := enough_depth constants []
  have opened : constants.number? name = tokensValue? (constants.value? constants.length [name]) init := by
    simp only [number?, value?, List.not_mem_nil, if_false, found]
    rfl
  rw [opened, length?_eq]
  apply tokensValue?_congr
  intro word within
  -- No word of the initial value leads to the name, so it does not matter that the name is opened.
  have unreached : ¬ Relation.ReflTransGen constants.Refers word name := fun path =>
    acyclic (Relation.TransGen.head' ⟨init, found, within⟩ path)
  apply value?_congr (agree_unreached constants name) _ (by omega) enough unreached
  intro other apart
  have distinct : other ≠ name := by
    rintro rfl
    exact apart Relation.ReflTransGen.refl
  simp [distinct]

theorem number?_eq {name : String} {init : List Token} {body : LengthExpr}
    (found : constants.init? name = some init) (complete : LengthExpr.ofTokens? init = some body) :
    constants.number? name = (body.eval? constants.number?).filter (· < Numeral.limit64) := by
  by_cases cycle : Relation.TransGen constants.Refers name name
  · have endless : constants.Endless name := ⟨name, Relation.ReflTransGen.refl, cycle⟩
    obtain ⟨word, ⟨ts, found', within⟩, onward⟩ := endless_step endless
    obtain rfl : init = ts := Option.some.inj (found.symm.trans found')
    rw [← LengthExpr.names_of_ofTokens? complete] at within
    have unknown : body.eval? constants.number? = none := eval?_none within (value?_endless onward _ _)
    rw [unknown, number?, value?_endless endless]
    rfl
  · rw [number?_eq_length? found cycle, length?_eq, tokensValue?_read complete]

/-- What is written with the initial value of a constant is reckoned with all the bits of it. -/
theorem length?_inlined {name : String} {init : List Token} {body : LengthExpr}
    (complete : LengthExpr.ofTokens? init = some body) (ts : List Token) :
    constants.length? (inlined name init ts) = tokensValue?
      (fun word => (LengthExpr.replaced name body word).eval? constants.number?) ts := by
  rw [length?_eq, tokensValue?, inlined,
    LengthExpr.ofTokens?_respelled (LengthExpr.respelling_inParens name complete), tokensValue?]
  cases LengthExpr.ofTokens? ts with
  | none => rfl
  | some e => simp only [Option.map_some, Option.bind_eq_bind, Option.bind_some, LengthExpr.eval?_withConstants]

/-- Constants in lengths. A constant with a complete initial value can be written out in parentheses unless
it is used and has a value of more than 64 bits; then there is no length. What depends on a constant that
depends on itself has no length, and to open constants deeper than there are any changes no length. -/
structure NamingLaw (constants : Constants) : Prop where
  kept : ∀ name init body ts, constants.init? name = some init → LengthExpr.ofTokens? init = some body →
    (name ∈ words ts → ∀ n, body.eval? constants.number? = some n → n < Numeral.limit64) →
      constants.length? (inlined name init ts) = constants.length? ts
  lost : ∀ name init body ts n, constants.init? name = some init → LengthExpr.ofTokens? init = some body →
    name ∈ words ts → body.eval? constants.number? = some n → Numeral.limit64 ≤ n →
      constants.length? ts = none
  endless : ∀ ts word, word ∈ words ts → constants.Endless word → constants.length? ts = none
  settled : ∀ depth ts, constants.length < depth →
    tokensValue? (constants.value? depth []) ts = constants.length? ts

theorem names_stand_for_values (constants : Constants) : NamingLaw constants where
  kept := by
    intro name init body ts found complete small
    rw [length?_inlined complete, length?_eq]
    apply tokensValue?_congr
    intro word within
    by_cases same : word = name
    · subst same
      rw [LengthExpr.replaced, if_pos rfl, number?_eq found complete]
      cases run : body.eval? constants.number? with
      | none => rfl
      | some n => simp [Option.filter, small within n run]
    · rw [LengthExpr.replaced, if_neg same]
      rfl
  lost := by
    intro name init body ts n found complete within run large
    rw [length?_eq]
    apply tokensValue?_none within
    have value := number?_eq found complete
    rw [run] at value
    rw [value]
    simp [Option.filter, Nat.not_lt.mpr large]
  endless := by
    intro ts word within endless
    exact tokensValue?_none within (value?_endless endless _ _)
  settled := by
    intro depth ts more
    have enough := unopened_le_length constants.names []
    rw [names, List.length_map] at enough
    apply tokensValue?_congr
    intro word _
    have all : Agree (fun _ => True) constants constants := ⟨fun _ _ => rfl, fun _ _ _ _ _ _ => trivial⟩
    exact value?_congr all (fun _ _ => Iff.rfl) (Nat.lt_of_le_of_lt enough more) (enough_depth constants [])
      trivial

def doubled : List Token :=
  [⟨.number "2", 1⟩, ⟨.punct '*', 1⟩, ⟨.word "M", 1⟩]

/-- A constant that depends on another, and two that depend on each other. -/
def spans : Constants :=
  [("N", doubled), ("M", [⟨.number "3", 2⟩]), ("A", [⟨.word "B", 3⟩]), ("B", [⟨.word "A", 4⟩])]

def share : List Token :=
  [⟨.number "12", 5⟩, ⟨.punct '/', 5⟩, ⟨.word "N", 5⟩]

theorem spans_endless : spans.Endless "A" := by
  have forth : spans.Refers "A" "B" := ⟨_, rfl, by decide⟩
  have back : spans.Refers "B" "A" := ⟨_, rfl, by decide⟩
  exact ⟨"A", Relation.ReflTransGen.refl, Relation.TransGen.head forth (Relation.TransGen.single back)⟩

theorem share_kept :
    spans.length? share = some 2 ∧ spans.length? (inlined "N" doubled share) = spans.length? share ∧
      spans.length? [⟨.word "A", 5⟩] = none := by
  have law := names_stand_for_values spans
  refine ⟨by decide, law.kept "N" doubled (.binary .mul (.literal "2") (.constant "M")) share rfl
    (by decide) ?_, law.endless _ "A" (by decide) spans_endless⟩
  intro _ n run
  have six : LengthExpr.eval? spans.number? (.binary .mul (.literal "2") (.constant "M")) = some 6 := by decide
  rw [six] at run
  cases run
  decide

def rays : Constants :=
  [("RAY", [⟨.number "1e27", 1⟩])]

def tenth : List Token :=
  [⟨.word "RAY", 2⟩, ⟨.punct '/', 2⟩, ⟨.number "1e26", 2⟩]

/-- The quotient is ten with the number in parentheses, and none with the constant. -/
theorem large_constant_lost :
    ¬∀ (constants : Constants) (name : String) (init : List Token) (body : LengthExpr) (ts : List Token),
      constants.init? name = some init → LengthExpr.ofTokens? init = some body →
        ¬ Relation.TransGen constants.Refers name name →
          constants.length? ts = constants.length? (inlined name init ts) := by
  intro same
  have acyclic : ¬ Relation.TransGen rays.Refers "RAY" "RAY" := by
    intro cycle
    obtain ⟨word, ⟨ts, found, within⟩, _⟩ := Relation.TransGen.head'_iff.mp cycle
    cases found
    simp [words, Token.word?] at within
  have equal := same rays "RAY" [⟨.number "1e27", 1⟩] (.literal "1e27") tenth rfl (by decide) acyclic
  have without : rays.length? tenth = none := by decide
  have ten : rays.length? (inlined "RAY" [⟨.number "1e27", 1⟩] tenth) = some 10 := by decide
  rw [without, ten] at equal
  contradiction

end Constants

end ContractRegistry.Source
