import ContractRegistry.Proofs.Layout.Overflow
import ContractRegistry.Proofs.Source.Sized

/-!
Sources that are accepted can be laid out, or tell why not.

The types of an accepted source have sizes, and its structs do not contain themselves. So there is nothing
to divide by zero or to follow without end, and a layout fails in what the source declares.
-/
namespace ContractRegistry.Source

/-- All built-in types of an accepted source have a size, its structs are followed to their ends, and its
layout fails in what is declared, or ends the program because the last slot of storage is in use. -/
structure AcceptedLaw (s : ContractSource) : Prop where
  declared : ∀ d ∈ s.declarations, d.ty.Sized
  types : s.catalog.SizedTypes
  grounded : s.catalog.Grounded
  failures : ∀ e, s.catalog.layout s.declarations = .error e →
    (∃ cause, e = .told cause ∧ cause.Declared) ∨ e = .panic .addition
  lastSlot_iff : s.catalog.layout s.declarations = .error (.panic .addition) ↔
    (Exact.layout s.catalog s.declarations).tooLarge? = some (.next Numeral.limit64)

theorem accepted_source_safe (text : String) (asked : Option String) (s : ContractSource)
    (accepted : ContractSource.ofText text asked = .ok s) : AcceptedLaw s := by
  obtain ⟨ts, -, run⟩ := bind_eq_ok.mp accepted
  obtain ⟨u, -, selected⟩ := bind_eq_ok.mp run
  obtain ⟨d, order, contained, registered, -, -, resolved, valid, -⟩ :=
    SourceUnit.select_eq_ok.mp selected
  have types := SourceUnit.catalog_sized registered
  have sized := SourceUnit.resolveVariables_sized types resolved
  have valid := SourceUnit.orRefuse_eq_ok.mp valid
  exact ⟨sized, types, Catalog.grounded_of_valid valid,
    fun _ => Catalog.layout_declared valid types.structs sized,
    (layout_overflows s.catalog s.declarations).lastSlot_iff⟩

def failure? (text : String) : Option (Failure LayoutError) :=
  match ContractSource.ofText text none with
  | .error _ => none
  | .ok s =>
    match s.catalog.layout s.declarations with
    | .error e => some e
    | .ok _ => none

theorem failure?_eq_some {text : String} {e : Failure LayoutError} (fails : failure? text = some e) :
    ∃ s, ContractSource.ofText text none = .ok s ∧ s.catalog.layout s.declarations = .error e := by
  unfold failure? at fails
  split at fails
  · contradiction
  · rename_i s accepted
    split at fails
    · rename_i e' failed
      exact ⟨s, accepted, Option.some.inj fails ▸ failed⟩
    · contradiction

/-- An order whose owner has a type that is not declared. -/
def orderText : String :=
  "type Id is bytes8; enum State { Open, Paid } struct Item { Id id; State state; } " ++
    "contract Order { Item[3] items; function() external hook; Person owner; }"

theorem order_accepted :
    ∃ s, ContractSource.ofText orderText none = .ok s ∧ AcceptedLaw s ∧
      s.catalog.layout s.declarations = .error (.told (.catalog (.unknownType "Person"))) := by
  have fails : failure? orderText = some (.told (.catalog (.unknownType "Person"))) := by decide +kernel
  obtain ⟨s, accepted, failed⟩ := failure?_eq_some fails
  exact ⟨s, accepted, accepted_source_safe orderText none s accepted, failed⟩

/-- Two values behind all slots but the last: the second one has no slot, and is not told. -/
def fullText : String :=
  "contract C { uint256[18446744073709551615] a; uint256 b; uint256 c; }"

theorem full_source_untold :
    ¬ ∀ text asked s, ContractSource.ofText text asked = .ok s →
      ∀ e, s.catalog.layout s.declarations = .error e → ∃ cause, e = .told cause ∧ cause.Declared := by
  intro told
  have fails : failure? fullText = some (.panic .addition) := by decide +kernel
  obtain ⟨s, accepted, failed⟩ := failure?_eq_some fails
  obtain ⟨_, untold, _⟩ := told fullText none s accepted _ failed
  cases untold

end ContractRegistry.Source
