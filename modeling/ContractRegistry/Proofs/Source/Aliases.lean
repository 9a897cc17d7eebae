import ContractRegistry.Proofs.Outcome
import ContractRegistry.Proofs.Source.Names

/-!
One alias more in a catalog changes nothing for those who do not use its name.
-/
namespace ContractRegistry

namespace Catalog

/-- Two catalogs with the same structs, and with the same aliases except for one name. -/
structure Beside (name : String) (c c' : Catalog) : Prop where
  structs : c.structs = c'.structs
  aliases : ∀ other, other ≠ name → c.alias? other = c'.alias? other

section

variable {name other : String} {c c' : Catalog}

theorem Beside.struct? (beside : Beside name c c') : c.struct? = c'.struct? := by
  funext other
  simp only [Catalog.struct?, beside.structs]

theorem Beside.hasStruct (beside : Beside name c c') : c.hasStruct = c'.hasStruct := by
  funext other
  simp only [Catalog.hasStruct, beside.struct?]

theorem Beside.contains (beside : Beside name c c') (apart : other ≠ name) :
    c.contains other = c'.contains other := by
  simp only [Catalog.contains, beside.hasStruct, beside.aliases other apart]

theorem Beside.fieldType (beside : Beside name c c') (apart : other ≠ name) :
    c.fieldType other = c'.fieldType other := by
  simp only [Catalog.fieldType, Catalog.elementary?, beside.aliases other apart]

theorem Beside.withAlias (beside : Beside name c c') (entry : String × Elementary) :
    Beside name { c with aliases := c.aliases ++ [entry] }
      { c' with aliases := c'.aliases ++ [entry] } := by
  refine ⟨beside.structs, fun other apart => ?_⟩
  have same := beside.aliases other apart
  simp only [alias?, List.lookup_append] at same ⊢
  rw [same]

theorem Beside.registerAlias (beside : Beside name c c') (apart : other ≠ name) (kind : Elementary) :
    Alike (Beside name) (c.registerAlias other kind) (c'.registerAlias other kind) := by
  simp only [Catalog.registerAlias, beside.contains apart]
  split
  · exact .error _
  · exact .ok (beside.withAlias _)

theorem Beside.registerEnum (beside : Beside name c c') (apart : other ≠ name) (members : Nat) :
    Alike (Beside name) (c.registerEnum other members) (c'.registerEnum other members) := by
  unfold Catalog.registerEnum
  split
  · exact .error _
  · exact (beside.registerAlias apart _).tell

theorem Beside.registerStruct (beside : Beside name c c') {d : StructDef} (apart : d.name ≠ name) :
    Alike (Beside name) (c.registerStruct d) (c'.registerStruct d) := by
  simp only [Catalog.registerStruct, beside.hasStruct, beside.aliases d.name apart]
  split
  · exact .error _
  · split
    · exact .error _
    · exact .ok ⟨by rw [beside.structs], beside.aliases⟩

theorem registerAlias_eq_ok {kind : Elementary} :
    c.registerAlias name kind = .ok c' ↔
      c.contains name = false ∧ c' = { c with aliases := c.aliases ++ [(name, kind)] } := by
  unfold Catalog.registerAlias
  split
  · rename_i known
    simp [known]
  · rename_i free
    simp [free, eq_comm]

theorem contains_alias (c : Catalog) (name : String) (kind : Elementary) (other : String) :
    Catalog.contains { c with aliases := c.aliases ++ [(name, kind)] } other =
      (c.contains other || other == name) := by
  simp only [Catalog.contains, Catalog.hasStruct, Catalog.struct?, alias?, List.lookup_append]
  by_cases same : other = name
  · simp [same]
  · simp [List.lookup_cons, beq_false_of_ne same]

theorem registerAlias_free (free : c.contains name = false) (kind : Elementary) :
    ∃ c', c.registerAlias name kind = .ok c' ∧ Beside name c c' := by
  refine ⟨_, registerAlias_eq_ok.mpr ⟨free, rfl⟩, rfl, ?_⟩
  intro other apart
  simp [alias?, List.lookup_append, List.lookup_cons, beq_false_of_ne apart]

theorem contains_of_registerAlias {kind : Elementary} (run : c.registerAlias other kind = .ok c')
    (apart : name ≠ other) (free : c.contains name = false) : c'.contains name = false := by
  obtain ⟨_, rfl⟩ := registerAlias_eq_ok.mp run
  simp [contains_alias, free, apart]

theorem Beside.missing? (beside : Beside name c c') : c.missing? = c'.missing? := by
  funext ty
  simp only [Catalog.missing?, beside.hasStruct]

theorem Beside.checkFields (beside : Beside name c c') (owner : String) (fields : List Field) :
    c.checkFields owner fields = c'.checkFields owner fields := by
  induction fields with
  | nil => rfl
  | cons f fs ih => simp only [Catalog.checkFields, beside.missing?, ih]

theorem Beside.checkStructs (beside : Beside name c c') (structs : List StructDef) :
    c.checkStructs structs = c'.checkStructs structs := by
  induction structs with
  | nil => rfl
  | cons d ds ih => simp only [Catalog.checkStructs, beside.checkFields, ih]

theorem Beside.visit (beside : Beside name c c') (depth : Nat) : c.visit depth = c'.visit depth := by
  induction depth with
  | zero => rfl
  | succ depth ih =>
    funext opened done other
    simp only [Catalog.visit, beside.struct?, ih]

theorem Beside.validate (beside : Beside name c c') : c.validate = c'.validate := by
  simp only [Catalog.validate, Catalog.containmentOrder, beside.structs, beside.checkStructs,
    beside.visit]

end

end Catalog

namespace Source

open Catalog

/-- A type that does not use the name, and whose lengths are the same with both tables. -/
structure TypeExpr.Unmoved (name : String) (first second : Constants) (ty : TypeExpr) : Prop where
  apart : name ∉ ty.names
  lengths : ∀ ts ∈ ty.lengths, first.length? ts = second.length? ts

section

variable {name : String} {c c' : Catalog} {first second : Constants}

theorem TypeExpr.resolve_congr (beside : Beside name c c') {ty : TypeExpr}
    (unmoved : ty.Unmoved name first second) : ty.resolve c first = ty.resolve c' second := by
  obtain ⟨apart, lengths⟩ := unmoved
  induction ty with
  | named other line =>
    simp only [names, List.mem_singleton] at apart
    simp only [resolve, beside.fieldType (Ne.symm apart)]
  | mapping key value ihk ihv =>
    simp only [names, List.mem_append, not_or] at apart
    simp only [TypeExpr.lengths, List.mem_append] at lengths
    simp only [resolve, ihk apart.1 fun ts mem => lengths ts (.inl mem),
      ihv apart.2 fun ts mem => lengths ts (.inr mem)]
  | array element length line ih =>
    simp only [TypeExpr.lengths, List.mem_append] at lengths
    have inner := ih apart fun ts mem => lengths ts (.inr mem)
    cases length with
    | none => simp only [resolve, inner]
    | some ts => simp only [resolve, inner, lengths ts (.inl (by simp))]
  | function external => rfl

namespace SourceUnit

theorem resolveFields_congr (beside : Beside name c c') {fields : List (String × TypeExpr)}
    (unmoved : ∀ f ∈ fields, f.2.Unmoved name first second) :
    resolveFields c first fields = resolveFields c' second fields := by
  induction fields with
  | nil => rfl
  | cons f fs ih =>
    simp only [resolveFields, TypeExpr.resolve_congr beside (unmoved f List.mem_cons_self),
      ih fun other mem => unmoved other (List.mem_cons_of_mem _ mem)]

theorem resolveVariables_congr (beside : Beside name c c') {items : List VariableItem}
    (unmoved : ∀ v ∈ items, v.ty.Unmoved name first second) :
    resolveVariables c first items = resolveVariables c' second items := by
  induction items with
  | nil => rfl
  | cons v vs ih =>
    simp only [resolveVariables, TypeExpr.resolve_congr beside (unmoved v List.mem_cons_self),
      ih fun other mem => unmoved other (List.mem_cons_of_mem _ mem)]

theorem registerContracts_beside {contracts : List ContractItem} (beside : Beside name c c')
    (apart : ∀ d ∈ contracts, d.name ≠ name) :
    Alike (Beside name) (registerContracts c contracts) (registerContracts c' contracts) := by
  induction contracts generalizing c c' with
  | nil => exact .ok beside
  | cons d ds ih =>
    exact (beside.registerAlias (apart d List.mem_cons_self) .address).bind fun _ _ both =>
      ih both fun other mem => apart other (List.mem_cons_of_mem _ mem)

theorem registerEnums_beside {enums : List EnumItem} (beside : Beside name c c')
    (apart : ∀ e ∈ enums, e.name ≠ name) :
    Alike (Beside name) (registerEnums c enums) (registerEnums c' enums) := by
  induction enums generalizing c c' with
  | nil => exact .ok beside
  | cons e es ih =>
    exact (beside.registerEnum (apart e List.mem_cons_self) e.members).bind fun _ _ both =>
      ih both fun other mem => apart other (List.mem_cons_of_mem _ mem)

theorem registerValueTypes_beside {valueTypes : List ValueTypeItem} (beside : Beside name c c')
    (apart : ∀ v ∈ valueTypes, v.name ≠ name) :
    Alike (Beside name) (registerValueTypes c valueTypes) (registerValueTypes c' valueTypes) := by
  induction valueTypes generalizing c c' with
  | nil => exact .ok beside
  | cons v vs ih =>
    simp only [registerValueTypes]
    split
    · exact .error _
    · exact (beside.registerAlias (apart v List.mem_cons_self) _).bind fun _ _ both =>
        ih both fun other mem => apart other (List.mem_cons_of_mem _ mem)

theorem orRefuse_eq_ok {α : Type} {x : Except CatalogError α} {a : α} : orRefuse x = .ok a ↔ x = .ok a := by
  cases x <;> simp [orRefuse]

/-- The types of a source are those of its contracts, enums, value types and structs, in this order. -/
theorem catalog_eq_ok {u : SourceUnit} :
    u.catalog = .ok c ↔ ∃ c₁ c₂ c₃, registerContracts .empty u.contracts = .ok c₁ ∧
      registerEnums c₁ u.enums = .ok c₂ ∧ registerValueTypes c₂ u.valueTypes = .ok c₃ ∧
      registerStructs u.constantTable c₃ u.structs = .ok c := by
  unfold catalog
  simp only [bind_eq_ok, orRefuse_eq_ok, Failure.mapError_eq_ok, Failure.tell_eq_ok]
  constructor
  · rintro ⟨c₁, contracts, c₂, enums, c₃, valueTypes, structs⟩
    exact ⟨c₁, c₂, c₃, contracts, enums, valueTypes, structs⟩
  · rintro ⟨c₁, c₂, c₃, contracts, enums, valueTypes, structs⟩
    exact ⟨c₁, contracts, c₂, enums, c₃, valueTypes, structs⟩

theorem orRefuse_alike {α β : Type} {related : α → β → Prop} {x : Except CatalogError α}
    {y : Except CatalogError β} (alike : Alike related x y) :
    Alike related (orRefuse x) (orRefuse y) := by
  cases alike with
  | error e => exact .error _
  | ok both => exact .ok both

theorem registerStructs_beside {structs : List StructItem} (beside : Beside name c c')
    (apart : ∀ s ∈ structs, s.name ≠ name)
    (unmoved : ∀ s ∈ structs, ∀ f ∈ s.fields, f.2.Unmoved name first second) :
    Alike (Beside name) (registerStructs first c structs) (registerStructs second c' structs) := by
  induction structs generalizing c c' with
  | nil => exact .ok beside
  | cons s ss ih =>
    have rest {d d' : Catalog} (both : Beside name d d') :=
      ih both (fun other mem => apart other (List.mem_cons_of_mem _ mem))
        fun other mem => unmoved other (List.mem_cons_of_mem _ mem)
    simp only [registerStructs, resolveFields_congr beside (unmoved s List.mem_cons_self),
      beside.struct?]
    refine (Alike.of_eq rfl).bind fun fields _ same => ?_
    subst same
    split
    · exact rest beside
    · exact (orRefuse_alike (beside.registerStruct (apart s List.mem_cons_self))).bind
        fun _ _ both => rest both

theorem registerContracts_insert {x : ContractItem} {before after : List ContractItem}
    (free : c.contains x.name = false) (apart : ∀ d ∈ before ++ after, d.name ≠ x.name) :
    Alike (Beside x.name) (registerContracts c (before ++ after))
      (registerContracts c (before ++ x :: after)) := by
  -- Up to the place both runs have one catalog, and behind it two that are beside each other.
  induction before generalizing c with
  | nil =>
    obtain ⟨extended, run, beside⟩ := registerAlias_free free .address
    simp only [List.nil_append, registerContracts, run]
    exact registerContracts_beside beside apart
  | cons d ds ih =>
    have other := apart d List.mem_cons_self
    simp only [List.cons_append, registerContracts]
    cases run : c.registerAlias d.name .address with
    | error e => exact .error e
    | ok next =>
      exact ih (contains_of_registerAlias run (Ne.symm other) free)
        fun e mem => apart e (List.mem_cons_of_mem _ mem)

end SourceUnit

end

end Source

end ContractRegistry
