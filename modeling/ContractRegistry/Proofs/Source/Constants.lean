import ContractRegistry.Proofs.Source.Names

/-!
When two tables of constants give the same lengths.

It is enough that the two agree on the constants that are needed, and that what a needed constant is
made of is needed too. How deep constants are opened differs between tables of different lengths, but
never stops a value.
-/
namespace ContractRegistry.Source.Constants

def names (constants : Constants) : List String :=
  constants.map Prod.fst

theorem init?_isSome_iff {constants : Constants} {name : String} :
    (constants.init? name).isSome ↔ name ∈ constants.names := by
  simp [init?, names, List.lookup_isSome_iff]

theorem init?_append (first second : Constants) (name : String) :
    init? (first ++ second) name = (second.init? name).or (first.init? name) := by
  simp [init?, List.lookup_append]

theorem mem_names_of_init? {constants : Constants} {name : String} {ts : List Token}
    (found : constants.init? name = some ts) : name ∈ constants.names := by
  rw [← init?_isSome_iff, found]
  rfl

/-- The names `needed` have the same initial values in both tables, and these need no others. -/
structure Agree (needed : String → Prop) (first second : Constants) : Prop where
  init : ∀ name, needed name → first.init? name = second.init? name
  closed : ∀ name ts, needed name → first.init? name = some ts → ∀ word ∈ words ts, needed word

/-- Depth that is enough for each table gives the same values, if the same needed names are opened. -/
theorem value?_congr {needed : String → Prop} {first second : Constants}
    (agree : Agree needed first second) {depth depth' : Nat} {opened opened' : List String} {name : String}
    (same : ∀ word, needed word → (word ∈ opened ↔ word ∈ opened'))
    (enough : unopened first.names opened < depth) (enough' : unopened second.names opened' < depth')
    (need : needed name) :
    first.value? depth opened name = second.value? depth' opened' name := by
  -- Both depths go down together. A name that is opened is one of each table, so both stay enough.
  induction depth generalizing depth' opened opened' name with
  | zero => exact absurd enough (Nat.not_lt_zero _)
  | succ depth ih =>
    obtain ⟨depth', rfl⟩ : ∃ d, depth' = d + 1 := ⟨depth' - 1, by omega⟩
    by_cases mem : name ∈ opened
    · simp [value?, mem, (same name need).mp mem]
    · have mem' : name ∉ opened' := fun mem' => mem ((same name need).mpr mem')
      simp only [value?, if_neg mem, if_neg mem', ← agree.init name need]
      cases found : first.init? name with
      | none => rfl
      | some ts =>
        have found' : second.init? name = some ts := by rw [← agree.init name need, found]
        have fewer := unopened_lt (mem_names_of_init? found) mem
        have fewer' := unopened_lt (mem_names_of_init? found') mem'
        have more : ∀ word, needed word → (word ∈ name :: opened ↔ word ∈ name :: opened') := by
          intro word need
          simp only [List.mem_cons, same word need]
        exact tokensValue?_congr fun word within =>
          ih more (by omega) (by omega) (agree.closed name ts need found word within)

theorem enough_depth (constants : Constants) (opened : List String) :
    unopened constants.names opened < constants.length + 1 := by
  have := unopened_le_length constants.names opened
  rw [names, List.length_map] at this
  exact Nat.lt_succ_of_le this

theorem length?_congr {needed : String → Prop} {first second : Constants}
    (agree : Agree needed first second) {ts : List Token} (need : ∀ word ∈ words ts, needed word) :
    first.length? ts = second.length? ts := by
  exact tokensValue?_congr fun word within =>
    value?_congr agree (fun _ _ => Iff.rfl) (enough_depth first []) (enough_depth second [])
      (need word within)

end ContractRegistry.Source.Constants
