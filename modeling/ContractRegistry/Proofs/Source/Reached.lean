import ContractRegistry.Proofs.Source.Aliases
import ContractRegistry.Proofs.Source.Constants

/-!
The constants that the storage of a contract depends on.

They are the words of the lengths in structs and in the variables of the contract and its bases, and
the words of the initial values of constants that are reached so. A source is refused unless each of
them has a value.
-/
namespace ContractRegistry.Source

def TypeExpr.Valued (constants : Constants) (ty : TypeExpr) : Prop :=
  ∀ ts ∈ ty.lengths, ∃ n, constants.length? ts = some n

theorem TypeExpr.resolve_valued {catalog : Catalog} {constants : Constants} {ty : TypeExpr}
    {resolved : TypeRef} (run : ty.resolve catalog constants = .ok resolved) :
    ty.Valued constants := by
  induction ty generalizing resolved with
  | named name line => simp [Valued, lengths]
  | mapping key value ihk ihv =>
    obtain ⟨_, first, run⟩ := bind_eq_ok.mp run
    obtain ⟨_, second, run⟩ := bind_eq_ok.mp run
    intro ts mem
    rcases List.mem_append.mp mem with mem | mem
    · exact ihk first ts mem
    · exact ihv second ts mem
  | array element length line ih =>
    cases length with
    | none =>
      obtain ⟨_, inner, run⟩ := bind_eq_ok.mp run
      exact ih inner
    | some size =>
      simp only [resolve] at run
      split at run
      · contradiction
      · rename_i n value
        obtain ⟨_, inner, run⟩ := bind_eq_ok.mp run
        intro ts mem
        rcases List.mem_append.mp mem with mem | mem
        · rw [List.mem_singleton.mp mem]
          exact ⟨n, value⟩
        · exact ih inner ts mem
  | function external => simp [Valued, lengths]

namespace SourceUnit

theorem resolveFields_valued {catalog : Catalog} {constants : Constants}
    {fields : List (String × TypeExpr)} {resolved : List Field}
    (run : resolveFields catalog constants fields = .ok resolved) :
    ∀ f ∈ fields, f.2.Valued constants := by
  induction fields generalizing resolved with
  | nil => simp
  | cons f fs ih =>
    obtain ⟨_, first, run⟩ := bind_eq_ok.mp run
    obtain ⟨_, rest, run⟩ := bind_eq_ok.mp run
    exact List.forall_mem_cons.mpr ⟨TypeExpr.resolve_valued first, ih rest⟩

theorem resolveVariables_valued {catalog : Catalog} {constants : Constants}
    {items : List VariableItem} {resolved : List Declaration}
    (run : resolveVariables catalog constants items = .ok resolved) :
    ∀ v ∈ items, v.ty.Valued constants := by
  induction items generalizing resolved with
  | nil => simp
  | cons v vs ih =>
    obtain ⟨_, first, run⟩ := bind_eq_ok.mp run
    obtain ⟨_, rest, run⟩ := bind_eq_ok.mp run
    exact List.forall_mem_cons.mpr ⟨TypeExpr.resolve_valued first, ih rest⟩

theorem registerStructs_valued {constants : Constants} {structs : List StructItem}
    {catalog registered : Catalog} (run : registerStructs constants catalog structs = .ok registered) :
    ∀ s ∈ structs, ∀ f ∈ s.fields, f.2.Valued constants := by
  induction structs generalizing catalog with
  | nil => simp
  | cons s ss ih =>
    obtain ⟨_, fields, run⟩ := bind_eq_ok.mp run
    refine List.forall_mem_cons.mpr ⟨resolveFields_valued fields, ?_⟩
    split at run
    · exact ih run
    · obtain ⟨_, _, run⟩ := bind_eq_ok.mp run
      exact ih run

/-- The name of the contract that is asked for, and its variables in the order of storage. -/
def ordered (u : SourceUnit) (asked : String) : Parsed (String × List VariableItem) := do
  let c ← u.target (some asked)
  let order ← u.inheritance c
  .ok (c.name, order.reverse.flatMap u.variablesOf)

theorem select_eq (u : SourceUnit) (asked : String) :
    u.select (some asked) = (do
      let catalog ← u.catalog
      let (contract, items) ← Failure.tell (u.ordered asked)
      let declarations ← Failure.tell (resolveVariables catalog u.constantTable items)
      let _ ← Failure.tell (orRefuse catalog.validate)
      .ok ⟨contract, catalog, declarations⟩) := by
  simp only [select, ordered, Failure.tell_bind, bind_assoc]
  rfl

theorem ordered_declared {u : SourceUnit} {asked contract : String} {items : List VariableItem}
    (run : u.ordered asked = .ok (contract, items)) :
    ∀ v ∈ items, ∃ c ∈ u.contracts, v ∈ c.declared := by
  obtain ⟨_, _, run⟩ := bind_eq_ok.mp run
  obtain ⟨order, _, run⟩ := bind_eq_ok.mp run
  cases run
  intro v mem
  obtain ⟨name, _, mem⟩ := List.mem_flatMap.mp mem
  unfold variablesOf at mem
  split at mem
  · rename_i c found
    exact ⟨c, List.mem_of_find?_eq_some found, mem⟩
  · contradiction

inductive Reaches (u : SourceUnit) (asked : String) : String → Prop where
  | inStruct {s : StructItem} {f : String × TypeExpr} {ts : List Token} {word : String}
      (declared : s ∈ u.structs) (field : f ∈ s.fields) (length : ts ∈ f.2.lengths)
      (mem : word ∈ words ts) : Reaches u asked word
  | inVariable {contract : String} {items : List VariableItem} {v : VariableItem} {ts : List Token}
      {word : String} (run : u.ordered asked = .ok (contract, items)) (declared : v ∈ items)
      (length : ts ∈ v.ty.lengths) (mem : word ∈ words ts) : Reaches u asked word
  | inConstant {name : String} {ts : List Token} {word : String} (reached : Reaches u asked name)
      (init : u.constantTable.init? name = some ts) (mem : word ∈ words ts) : Reaches u asked word

theorem select_valued {u : SourceUnit} {asked : String} {source : ContractSource}
    (run : u.select (some asked) = .ok source) :
    (∀ s ∈ u.structs, ∀ f ∈ s.fields, f.2.Valued u.constantTable) ∧
      ∃ contract items, u.ordered asked = .ok (contract, items) ∧
        ∀ v ∈ items, v.ty.Valued u.constantTable := by
  rw [select_eq] at run
  obtain ⟨catalog, types, run⟩ := bind_eq_ok.mp run
  obtain ⟨⟨contract, items⟩, ordered, run⟩ := tell_bind_eq_ok.mp run
  obtain ⟨declarations, resolved, run⟩ := tell_bind_eq_ok.mp run
  obtain ⟨_, _, _, -, -, -, structs⟩ := catalog_eq_ok.mp types
  exact ⟨registerStructs_valued structs, contract, items, ordered, resolveVariables_valued resolved⟩

def HasValue (constants : Constants) (name : String) : Prop :=
  ∃ depth opened n, constants.value? depth opened name = some n

theorem words_hasValue {constants : Constants} {ts : List Token} {n : Nat}
    (run : constants.length? ts = some n) : ∀ word ∈ words ts, HasValue constants word := by
  intro word mem
  obtain ⟨m, value⟩ := Constants.words_valued run word mem
  exact ⟨_, _, m, value⟩

/-- A source `v` that has the structs and variables of `u` and is not refused gives a value to each
constant that `u` reaches, as long as the two agree on the initial values of those with a value. -/
theorem reaches_hasValue {u v : SourceUnit} {asked : String} {source : ContractSource}
    (ordered : v.ordered asked = u.ordered asked) (structs : v.structs = u.structs)
    (run : v.select (some asked) = .ok source)
    (same : ∀ name, HasValue v.constantTable name →
      v.constantTable.init? name = u.constantTable.init? name)
    {name : String} (reached : u.Reaches asked name) : HasValue v.constantTable name := by
  obtain ⟨fields, contract, items, result, declared⟩ := select_valued run
  induction reached with
  | inStruct mem field length within =>
    obtain ⟨n, value⟩ := fields _ (structs ▸ mem) _ field _ length
    exact words_hasValue value _ within
  | inVariable found mem length within =>
    rw [ordered, found] at result
    cases result
    obtain ⟨n, value⟩ := declared _ mem _ length
    exact words_hasValue value _ within
  | @inConstant name ts word reached init within ih =>
    obtain ⟨depth, opened, n, value⟩ := ih
    have agreed := same name ⟨depth, opened, n, value⟩
    cases depth with
    | zero => contradiction
    | succ depth =>
      -- A value is that of the initial value, and all words of it have values.
      simp only [Constants.value?] at value
      split at value
      · contradiction
      · rw [agreed, init] at value
        obtain ⟨m, inner⟩ := Constants.words_valued value word within
        exact ⟨_, _, m, inner⟩

end SourceUnit

end ContractRegistry.Source
