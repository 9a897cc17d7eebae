import ContractRegistry.Proofs.Elementary
import ContractRegistry.Proofs.Layout.Size
import ContractRegistry.Proofs.Source.Aliases
import ContractRegistry.Proofs.Source.Linearization

/-!
Types that are read from a source.

A built-in type comes into a source by its name, as an enum, as what a name stands for or as a function.
Each of these has a size that fits in a slot, or is a sequence, and so it stays when types are put
together.
-/
namespace ContractRegistry

namespace Elementary

theorem sized_of_packedSize? {kind : Elementary} {n : Nat} (packs : kind.packedSize? = some n)
    (least : 1 ≤ n) (most : n ≤ slotBytes) : kind.Sized := by
  intro size told
  obtain rfl := Option.some.inj (packs.symm.trans told)
  exact ⟨least, most⟩

theorem Standard.sized {kind : Elementary} (standard : kind.Standard) : kind.Sized := by
  cases kind with
  | uint bits | int bits =>
    obtain ⟨-, least, most⟩ := standard
    refine sized_of_packedSize? rfl (by omega) ?_
    rw [slotBytes]
    omega
  | fixedBytes width => exact sized_of_packedSize? rfl standard.1 standard.2
  | _ => simp [Sized, packedSize?, addressBytes, slotBytes]

theorem ofName?_sized {name : String} {kind : Elementary} (read : ofName? name = some kind) :
    kind.Sized :=
  (standard_of_ofName? read).sized

end Elementary

namespace Catalog

/-- The built-in types that names stand for have a size that fits in a slot, and so have those in the
members of structs. -/
structure SizedTypes (c : Catalog) : Prop where
  aliases : ∀ a ∈ c.aliases, a.2.Sized
  structs : c.Sized

variable {c c' : Catalog}

theorem widen_within (last room bytes : Nat) : bytes ≤ widen last room bytes ∧
    widen last room bytes ≤ bytes + room := by
  induction room generalizing bytes with
  | zero => exact ⟨Nat.le_refl _, Nat.le_refl _⟩
  | succ room ih =>
    unfold widen
    split
    · omega
    · have := ih (bytes + 1)
      omega

theorem enum_sized (members : Nat) : (Elementary.uint (8 * enumBytes members)).Sized := by
  have within := widen_within (members - 1) 31 1
  have packs : (Elementary.uint (8 * enumBytes members)).packedSize? = some (enumBytes members) := by
    simp [Elementary.packedSize?]
  exact Elementary.sized_of_packedSize? packs within.1 within.2

theorem elementary?_sized (types : c.SizedTypes) {name : String} {kind : Elementary}
    (found : c.elementary? name = some kind) : kind.Sized := by
  rcases Option.or_eq_some_iff.mp found with builtin | ⟨-, known⟩
  · exact Elementary.ofName?_sized builtin
  · obtain ⟨before, after, parts, -⟩ := List.lookup_eq_some_iff.mp known
    exact types.aliases (name, kind) (parts ▸ List.mem_append_right _ List.mem_cons_self)

theorem fieldType_sized (types : c.SizedTypes) (name : String) : (c.fieldType name).Sized := by
  unfold fieldType
  split
  · rename_i kind found
    exact elementary?_sized types found
  · trivial

theorem empty_sized : Catalog.empty.SizedTypes := by
  constructor <;> simp [Catalog.empty, Catalog.Sized]

theorem registerAlias_sized {name : String} {kind : Elementary} (sized : kind.Sized)
    (types : c.SizedTypes) (run : c.registerAlias name kind = .ok c') : c'.SizedTypes := by
  obtain ⟨-, rfl⟩ := registerAlias_eq_ok.mp run
  refine ⟨fun a mem => ?_, types.structs⟩
  rcases List.mem_append.mp mem with old | new
  · exact types.aliases a old
  · obtain rfl := List.mem_singleton.mp new
    exact sized

theorem registerStruct_sized {d : StructDef} (fields : ∀ f ∈ d.fields, f.ty.Sized)
    (types : c.SizedTypes) (run : c.registerStruct d = .ok c') : c'.SizedTypes := by
  unfold registerStruct at run
  split at run
  · contradiction
  split at run
  · contradiction
  cases run
  refine ⟨types.aliases, fun e mem => ?_⟩
  rcases List.mem_append.mp mem with old | new
  · exact types.structs e old
  · obtain rfl := List.mem_singleton.mp new
    exact fields

end Catalog

namespace Source

variable {c c' : Catalog} {constants : Constants}

theorem function_sized (external : Bool) : (Elementary.fixedBytes (functionBytes external)).Sized := by
  cases external <;> simp [Elementary.Sized, Elementary.packedSize?, functionBytes, slotBytes]

theorem resolve_sized (types : c.SizedTypes) {ty : TypeExpr} {t : TypeRef}
    (run : ty.resolve c constants = .ok t) : t.Sized := by
  induction ty generalizing t with
  | named name line =>
    cases run
    exact Catalog.fieldType_sized types name
  | function external =>
    cases run
    exact function_sized external
  | mapping key value ihk ihv =>
    obtain ⟨k, keyed, run⟩ := bind_eq_ok.mp run
    obtain ⟨v, valued, run⟩ := bind_eq_ok.mp run
    cases run
    exact ⟨ihk keyed, ihv valued⟩
  | array element length line ih =>
    cases length with
    | none =>
      obtain ⟨e, resolved, run⟩ := bind_eq_ok.mp run
      cases run
      exact @ih e resolved
    | some ts =>
      unfold TypeExpr.resolve at run
      split at run
      · contradiction
      · obtain ⟨e, resolved, run⟩ := bind_eq_ok.mp run
        cases run
        exact @ih e resolved

namespace SourceUnit

theorem registerContracts_sized {contracts : List ContractItem} (types : c.SizedTypes)
    (run : registerContracts c contracts = .ok c') : c'.SizedTypes := by
  induction contracts generalizing c with
  | nil =>
    cases run
    exact types
  | cons d ds ih =>
    obtain ⟨next, registered, run⟩ := bind_eq_ok.mp run
    have address : Elementary.address.Sized := by
      simp [Elementary.Sized, Elementary.packedSize?, addressBytes, slotBytes]
    exact ih (Catalog.registerAlias_sized address types registered) run

theorem registerEnums_sized {enums : List EnumItem} (types : c.SizedTypes)
    (run : registerEnums c enums = .ok c') : c'.SizedTypes := by
  induction enums generalizing c with
  | nil =>
    cases run
    exact types
  | cons e es ih =>
    obtain ⟨next, registered, run⟩ := bind_eq_ok.mp run
    unfold Catalog.registerEnum at registered
    split at registered
    · contradiction
    · have registered := Failure.tell_eq_ok.mp registered
      exact ih (Catalog.registerAlias_sized (Catalog.enum_sized e.members) types registered) run

theorem registerValueTypes_sized {valueTypes : List ValueTypeItem} (types : c.SizedTypes)
    (run : registerValueTypes c valueTypes = .ok c') : c'.SizedTypes := by
  induction valueTypes generalizing c with
  | nil =>
    cases run
    exact types
  | cons v vs ih =>
    unfold registerValueTypes at run
    split at run
    · contradiction
    · rename_i kind builtin
      obtain ⟨next, registered, run⟩ := bind_eq_ok.mp run
      exact ih (Catalog.registerAlias_sized (Elementary.ofName?_sized builtin) types registered) run

theorem resolveFields_sized (types : c.SizedTypes) {fields : List (String × TypeExpr)}
    {resolved : List Field} (run : resolveFields c constants fields = .ok resolved) :
    ∀ f ∈ resolved, f.ty.Sized := by
  induction fields generalizing resolved with
  | nil =>
    cases run
    simp
  | cons f fs ih =>
    obtain ⟨t, typed, run⟩ := bind_eq_ok.mp run
    obtain ⟨rest, others, run⟩ := bind_eq_ok.mp run
    cases run
    exact List.forall_mem_cons.mpr ⟨resolve_sized types typed, ih others⟩

theorem resolveVariables_sized (types : c.SizedTypes) {items : List VariableItem}
    {declarations : List Declaration} (run : resolveVariables c constants items = .ok declarations) :
    ∀ d ∈ declarations, d.ty.Sized := by
  induction items generalizing declarations with
  | nil =>
    cases run
    simp
  | cons v vs ih =>
    obtain ⟨t, typed, run⟩ := bind_eq_ok.mp run
    obtain ⟨rest, others, run⟩ := bind_eq_ok.mp run
    cases run
    exact List.forall_mem_cons.mpr ⟨resolve_sized types typed, ih others⟩

theorem registerStructs_sized {structs : List StructItem} (types : c.SizedTypes)
    (run : registerStructs constants c structs = .ok c') : c'.SizedTypes := by
  induction structs generalizing c with
  | nil =>
    cases run
    exact types
  | cons s ss ih =>
    obtain ⟨fields, resolved, run⟩ := bind_eq_ok.mp run
    split at run
    · exact ih types run
    · obtain ⟨next, registered, run⟩ := bind_eq_ok.mp run
      exact ih (Catalog.registerStruct_sized (resolveFields_sized types resolved) types
        (orRefuse_eq_ok.mp registered)) run

theorem catalog_sized {u : SourceUnit} (run : u.catalog = .ok c) : c.SizedTypes := by
  obtain ⟨c₁, c₂, c₃, contracts, enums, valueTypes, structs⟩ := catalog_eq_ok.mp run
  have first := registerContracts_sized Catalog.empty_sized contracts
  have second := registerEnums_sized first enums
  have third := registerValueTypes_sized second valueTypes
  exact registerStructs_sized third structs

end SourceUnit

end Source

end ContractRegistry
