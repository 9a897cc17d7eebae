import ContractRegistry.Proofs.Layout.Append
import ContractRegistry.Proofs.Source.Aliases
import ContractRegistry.Proofs.Source.Linearization

/-!
The storage of a contract begins with that of its only base.

The order of a contract with one base is that of the base behind the contract itself, and storage is laid
out from the last contract of an order to the first. So the variables of the base come first, under the
same numbers, and what the contract adds is put behind them.
-/
namespace ContractRegistry.Source

namespace Inheritance

theorem merge?_single {steps : Nat} {list merged : List String} {base : String} (listed : base ∈ list)
    (run : merge? steps [list, [base]] = some merged) : merged = list := by
  have kept : list.Sublist merged := sublist_of_merge? run list List.mem_cons_self
  have within : merged ⊆ list := by
    intro name mem
    have given := mem_of_merge? run name mem
    simp only [List.flatten_cons, List.flatten_nil, List.append_nil, List.mem_append,
      List.mem_singleton] at given
    rcases given with given | rfl
    · exact given
    · exact listed
  have fewer := (nodup_of_merge? run).length_le_of_subset within
  exact (kept.eq_of_length_le fewer).symm

end Inheritance

namespace SourceUnit

open Inheritance

variable {u : SourceUnit}

def ofText (text : String) : Parsed SourceUnit := do
  let ts ← tokenize text.toList
  SourceUnit.ofTokens ts

theorem ofText_select (text : String) (asked : Option String) :
    ContractSource.ofText text asked = Failure.tell (ofText text) >>= fun u => u.select asked := by
  simp only [ContractSource.ofText, ofText, Failure.tell_bind, bind_assoc]

theorem registerContracts_distinct {contracts : List ContractItem} {c c' : Catalog}
    (run : registerContracts c contracts = .ok c') :
    (contracts.map (·.name)).Nodup ∧ ∀ d ∈ contracts, c.contains d.name = false := by
  induction contracts generalizing c with
  | nil => simp
  | cons d ds ih =>
    obtain ⟨next, first, run⟩ := bind_eq_ok.mp run
    obtain ⟨free, rfl⟩ := Catalog.registerAlias_eq_ok.mp first
    obtain ⟨distinct, others⟩ := ih run
    simp only [Catalog.contains_alias, Bool.or_eq_false_iff, beq_eq_false_iff_ne] at others
    constructor
    · rw [List.map_cons, List.nodup_cons]
      refine ⟨fun again => ?_, distinct⟩
      obtain ⟨e, mem, same⟩ := List.mem_map.mp again
      exact (others e mem).2 same
    · exact List.forall_mem_cons.mpr ⟨free, fun e mem => (others e mem).1⟩

theorem distinct_of_catalog {catalog : Catalog} (run : u.catalog = .ok catalog) :
    (u.contracts.map (·.name)).Nodup := by
  obtain ⟨_, _, _, contracts, -⟩ := catalog_eq_ok.mp run
  exact (registerContracts_distinct contracts).1

theorem inheritance_of_only_base {d : ContractItem} {base : String} (only : d.bases = [base])
    {order : List String} (run : u.inheritance d = .ok order) :
    ∃ b list, u.contract? base = some b ∧ u.inheritance b = .ok list ∧ order = d.name :: list := by
  obtain ⟨fewer, orders, rest, _, _, bases, merged, rfl⟩ := linearize_eq_ok.mp run
  rw [only, List.reverse_singleton] at bases merged
  obtain ⟨list, orders, ⟨b, known, walked⟩, others, rfl⟩ := List.forall₂_cons_left_iff.mp bases
  obtain rfl := List.forall₂_nil_left_iff.mp others
  have named := (contract?_mem known).2
  have known' := contract?_name known
  have whole := inheritance_of_linearize known' walked
  -- The base is in its own order, so the list of direct bases adds nothing to the merge.
  have first : b.name ∈ list := (linearize_reaches known' walked .refl).2.1
  rw [named] at first
  obtain rfl := merge?_single first merged
  exact ⟨b, rest, known, whole, rfl⟩

theorem resolveVariables_append {catalog : Catalog} {constants : Constants}
    {items others : List VariableItem} {declarations : List Declaration}
    (run : resolveVariables catalog constants (items ++ others) = .ok declarations) :
    ∃ first behind, resolveVariables catalog constants items = .ok first ∧
      declarations = first ++ behind := by
  induction items generalizing declarations with
  | nil => exact ⟨[], declarations, rfl, rfl⟩
  | cons v vs ih =>
    obtain ⟨ty, resolved, run⟩ := bind_eq_ok.mp run
    obtain ⟨rest, run, eq⟩ := bind_eq_ok.mp run
    obtain ⟨first, behind, onward, rfl⟩ := ih run
    obtain rfl := Except.ok.inj eq
    exact ⟨_, behind, bind_eq_ok.mpr ⟨ty, resolved, bind_eq_ok.mpr ⟨first, onward, rfl⟩⟩, rfl⟩

theorem numbered_append {first whole : ContractSource} {behind : List Declaration}
    (joined : whole.declarations = first.declarations ++ behind) : first.numbered <+: whole.numbered := by
  simp only [ContractSource.numbered, number_eq, joined, List.nil_append, List.zipIdx_append,
    List.map_append]
  exact List.prefix_append _ _

theorem select_only_base {asked : Option String} {d : ContractItem} {base : String}
    {source : ContractSource} (mem : d ∈ u.contracts) (only : d.bases = [base])
    (run : u.select asked = .ok source) (selected : source.contract = d.name) :
    ∃ own behind, u.select (some base) = .ok own ∧ own.contract = base ∧
      own.catalog = source.catalog ∧ source.declarations = own.declarations ++ behind := by
  obtain ⟨d', order, contained, types, target, ordered, resolved, valid, named⟩ := select_eq_ok.mp run
  have distinct := distinct_of_catalog types
  obtain rfl : d = d' :=
    List.inj_on_of_nodup_map distinct mem (target_mem target) (selected.symm.trans named)
  obtain ⟨b, list, known, ordered', rfl⟩ := inheritance_of_only_base only ordered
  -- Read from its end, the order has the base and all behind it first, and the contract last.
  rw [List.reverse_cons, List.flatMap_append] at resolved
  obtain ⟨first, behind, resolved', joined⟩ := resolveVariables_append resolved
  have target' : u.target (some base) = .ok b := by simp only [SourceUnit.target, known]
  have name := (contract?_mem known).2
  refine ⟨⟨base, source.catalog, first⟩, behind, select_eq_ok.mpr ?_, rfl, rfl, joined⟩
  exact ⟨b, list, contained, types, target', ordered', resolved', valid, name.symm⟩

end SourceUnit

/-- A contract has the types of a source and its first variables, under the same numbers. -/
structure ContractSource.Begins (first whole : ContractSource) : Prop where
  catalog : first.catalog = whole.catalog
  numbered : first.numbered <+: whole.numbered

/-- Declarations do not move when others are put behind them, nor do the variables of a contract when
another has it as its only base. -/
structure AppendLaw (c : Catalog) (text : String) : Prop where
  layout : ∀ p q whole, c.layout (p ++ q) = .ok whole →
    ∃ first, c.layout p = .ok first ∧ first.Begins whole
  derived : ∀ u d base asked source whole, SourceUnit.ofText text = .ok u → d ∈ u.contracts →
    d.bases = [base] → ContractSource.ofText text asked = .ok source → source.contract = d.name →
    source.catalog.layout source.declarations = .ok whole →
    ∃ own first, ContractSource.ofText text (some base) = .ok own ∧ own.contract = base ∧
      own.Begins source ∧ own.catalog.layout own.declarations = .ok first ∧ first.Begins whole

theorem storage_grows_behind (c : Catalog) (text : String) : AppendLaw c text where
  layout := fun _ _ _ run => Catalog.layout_append run
  derived := by
    intro u d base asked source whole declared mem only run selected laidOut
    rw [SourceUnit.ofText_select, declared] at run
    obtain ⟨own, behind, run', named, types, joined⟩ :=
      SourceUnit.select_only_base mem only run selected
    have text' : ContractSource.ofText text (some base) = .ok own := by
      rw [SourceUnit.ofText_select, declared]
      exact run'
    rw [joined] at laidOut
    obtain ⟨first, laidOut', begins⟩ := Catalog.layout_append laidOut
    rw [← types] at laidOut'
    exact ⟨own, first, text', named, ⟨types, SourceUnit.numbered_append joined⟩, laidOut', begins⟩

/-- A vault that adds two variables to those of an owned contract. -/
def vaultText : String :=
  "contract Owned { address owner; bool open; } contract Vault is Owned { bool locked; uint256 sum; }"

/-- The assignments of a contract, each with its slot and its first byte. -/
def places (text : String) (asked : String) : Option (List (String × Nat × Nat)) :=
  match ContractSource.ofText text (some asked) with
  | .error _ => none
  | .ok source =>
    match source.catalog.layout source.declarations with
    | .error _ => none
    | .ok l => some (l.assignments.map fun a => (a.name, a.slot, a.offset))

theorem places_eq_some {text asked : String} {listed : List (String × Nat × Nat)}
    (run : places text asked = some listed) :
    ∃ source l, ContractSource.ofText text (some asked) = .ok source ∧
      source.catalog.layout source.declarations = .ok l ∧
      l.assignments.map (fun a => (a.name, a.slot, a.offset)) = listed := by
  unfold places at run
  split at run
  · contradiction
  · rename_i source read
    split at run
    · contradiction
    · rename_i l laidOut
      exact ⟨source, l, read, laidOut, Option.some.inj run⟩

theorem vault_begins_owned :
    ∃ own source first whole, ContractSource.ofText vaultText (some "Owned") = .ok own ∧
      ContractSource.ofText vaultText (some "Vault") = .ok source ∧ own.Begins source ∧
      own.catalog.layout own.declarations = .ok first ∧
      source.catalog.layout source.declarations = .ok whole ∧ first.Begins whole ∧
      whole.assignments.map (fun a => (a.name, a.slot, a.offset)) =
        [("owner", 0, 0), ("open", 0, 20), ("locked", 0, 21), ("sum", 1, 0)] := by
  have law := storage_grows_behind .empty vaultText
  have found : places vaultText "Vault" =
      some [("owner", 0, 0), ("open", 0, 20), ("locked", 0, 21), ("sum", 1, 0)] := by decide +kernel
  have named : (ContractSource.ofText vaultText (some "Vault")).toOption.map (·.contract) =
      some "Vault" := by decide +kernel
  have contracts : (SourceUnit.ofText vaultText).toOption.map
      (fun u => u.contracts.map fun d => (d.name, d.bases)) =
        some [("Owned", []), ("Vault", ["Owned"])] := by decide +kernel
  obtain ⟨source, whole, read, laidOut, listed⟩ := places_eq_some found
  have parts := read
  rw [SourceUnit.ofText_select] at parts
  obtain ⟨u, declared, _⟩ := tell_bind_eq_ok.mp parts
  rw [read] at named
  rw [declared] at contracts
  have two : u.contracts.map (fun d => (d.name, d.bases)) =
      [("Owned", []), ("Vault", ["Owned"])] := Option.some.inj contracts
  have vault : ("Vault", ["Owned"]) ∈ u.contracts.map fun d => (d.name, d.bases) := by simp [two]
  obtain ⟨d, mem, same⟩ := List.mem_map.mp vault
  obtain ⟨name, only⟩ := Prod.mk.inj same
  have selected : source.contract = d.name := (Option.some.inj named).trans name.symm
  obtain ⟨own, first, read', _, begins, laidOut', layouts⟩ :=
    law.derived u d "Owned" _ source whole declared mem only read selected laidOut
  exact ⟨own, source, first, whole, read', read, begins, laidOut', laidOut, layouts, listed⟩

end ContractRegistry.Source
