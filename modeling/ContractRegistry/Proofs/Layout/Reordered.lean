import ContractRegistry.Proofs.Catalog.Registration
import ContractRegistry.Proofs.Layout.Depth

/-!
The order of registration has no part in a layout.

A layout asks a catalog for structs by their names, so two catalogs that find the same structs write the
same signatures, give every struct the same slots and place everything alike. What is left of the order is
which fault is told first when a catalog has several: a name without a struct comes before a cycle in every
order, so the kind of the error is the same, and only the names in it can differ.
-/
namespace ContractRegistry

namespace CatalogError

/-- The kind of an error: the error without the names that it tells. -/
def bare : CatalogError → CatalogError
  | .duplicateStruct _ => .duplicateStruct ""
  | .duplicateType _ => .duplicateType ""
  | .unknownFieldType _ _ _ => .unknownFieldType "" "" ""
  | .unknownType _ => .unknownType ""
  | .cyclicStruct _ => .cyclicStruct []

end CatalogError

namespace LayoutError

def bare : LayoutError → LayoutError
  | .catalog cause => .catalog cause.bare
  | .emptyStruct _ => .emptyStruct ""
  | .zeroLengthArray _ => .zeroLengthArray ""
  | .invalidMappingKey _ _ => .invalidMappingKey "" ""
  | .overflow _ => .overflow ""

end LayoutError

namespace Catalog

structure SameStructs (c c' : Catalog) : Prop where
  found : ∀ name, c.struct? name = c'.struct? name
  listed : c.structs.Perm c'.structs

section
variable {c c' : Catalog} (same : c.SameStructs c')
include same

theorem hasStruct_same : c.hasStruct = c'.hasStruct := by
  funext name
  simp only [hasStruct, same.found]

theorem registered_same (name : String) : c.Registered name ↔ c'.Registered name := by
  rw [← hasStruct_iff, ← hasStruct_iff, hasStruct_same same]

theorem contains_same : c.Contains = c'.Contains := by
  funext outer inner
  simp only [Contains, same.found]

theorem checkDeclarations_same (declarations : List Declaration) :
    c.checkDeclarations declarations = c'.checkDeclarations declarations := by
  induction declarations with
  | nil => rfl
  | cons d ds ih => simp only [checkDeclarations, check, missing?, hasStruct_same same, ih]

theorem structText_same (depth : Nat) : c.structText depth = c'.structText depth := by
  induction depth with
  | zero => rfl
  | succ depth ih =>
    funext opened name
    simp only [structText, same.found, ih]

theorem signature_same : c.signature = c'.signature := by
  funext ty
  simp only [signature, structText_same same, same.listed.length_eq]

theorem checkRemote_same (path : String) (ty : TypeRef) : c.checkRemote path ty = c'.checkRemote path ty := by
  induction ty with
  | elementary kind => rfl
  | fixedArray element length ih => simp only [checkRemote, ih]
  | dynamicArray element ih => exact ih
  | mapping key value _ ih => cases key <;> simp only [checkRemote, ih, signature_same same]
  | struct name => simp only [checkRemote, same.found]

theorem footprint_same (slots : String → LayoutResult Nat) (path : String) (ty : TypeRef) :
    c.footprint slots path ty = c'.footprint slots path ty := by
  induction ty with
  | elementary kind => rfl
  | fixedArray element length ih => simp only [footprint, ih]
  | dynamicArray element _ => simp only [footprint, checkRemote_same same]
  | mapping key value _ _ =>
    cases key <;> simp only [footprint, checkRemote_same same, signature_same same]
  | struct name => rfl

theorem measureFields_same (slots : String → LayoutResult Nat) (owner : String) (cursor : Cursor)
    (fields : List Field) :
    c.measureFields slots owner cursor fields = c'.measureFields slots owner cursor fields := by
  induction fields generalizing cursor with
  | nil => rfl
  | cons f fs ih => simp only [measureFields, footprint_same same, ih]

theorem measure_same (slots : String → LayoutResult Nat) (d : StructDef) :
    c.measure slots d = c'.measure slots d := by
  simp only [measure, measureFields_same same]

end

variable {c c' : Catalog}

theorem measureAll_unknown {name : String} (unknown : c.struct? name = none) (sizes : Sizes)
    (names : List String) : (c.measureAll sizes names).slots name = sizes.slots name := by
  induction names generalizing sizes with
  | nil => rfl
  | cons first names ih =>
    simp only [measureAll]
    split
    · rename_i d found
      have other : name ≠ first := by
        intro eq
        rw [eq, found] at unknown
        contradiction
      rw [ih, Sizes.slots_cons, if_neg other]
    · exact ih sizes

theorem slots_unknown {sizes : Sizes} (run : c.sizes = .ok sizes) {name : String}
    (unknown : c.struct? name = none) : sizes.slots name = .error (.told (.catalog (.unknownType name))) := by
  obtain ⟨_, order, _, rfl⟩ := sizes_eq_ok run
  exact measureAll_unknown unknown [] order

/-- The size of a struct is a matter of what is in it. The order in which structs were measured is not. -/
theorem slots_same (same : c.SameStructs c') {order : List String} (valid : c.validate = .ok order)
    {sizes sizes' : Sizes} (run : c.sizes = .ok sizes) (run' : c'.sizes = .ok sizes') :
    sizes.slots = sizes'.slots := by
  funext name
  -- No struct contains itself, so the sizes inside a struct are the same before its own is.
  induction name using (grounded_of_valid valid).wellFounded.induction with
  | _ name ih =>
    cases found : c.struct? name with
    | none =>
      have found' : c'.struct? name = none := same.found name ▸ found
      rw [slots_unknown run found, slots_unknown run' found']
    | some d =>
      have found' : c'.struct? name = some d := same.found name ▸ found
      have inside : ∀ f ∈ d.fields, ∀ child, f.ty.Stores child → sizes.slots child = sizes'.slots child := by
        intro f member child stores
        apply ih
        exact ⟨d, found, f, member, stores⟩
      calc sizes.slots name = c.measure sizes.slots d := slots_eq_measure run found
        _ = c.measure sizes'.slots d := measure_congr inside
        _ = c'.measure sizes'.slots d := measure_same same sizes'.slots d
        _ = sizes'.slots name := (slots_eq_measure run' found').symm

section
variable (same : c.SameStructs c')
include same

theorem placeFields_same (slots : String → LayoutResult Nat)
    (inside : String → Nat → String → LayoutResult Scope) (base : Nat) (pathOf : String → String)
    (cursor : Cursor) (fields : List Field) :
    c.placeFields slots inside base pathOf cursor fields =
      c'.placeFields slots inside base pathOf cursor fields := by
  induction fields generalizing cursor with
  | nil => rfl
  | cons f fs ih => simp only [placeFields, footprint_same same, ih]

theorem placeStruct_same (slots : String → LayoutResult Nat) (depth : Nat) :
    c.placeStruct slots depth = c'.placeStruct slots depth := by
  induction depth with
  | zero => rfl
  | succ depth ih =>
    funext name base path
    simp only [placeStruct, same.found, ih, placeFields_same same]

theorem assignment_same (e : Entry) : c.assignment e = c'.assignment e := by
  simp only [assignment, signature_same same]

theorem layout_same {order order' : List String} (valid : c.validate = .ok order)
    (valid' : c'.validate = .ok order') (declarations : List Declaration) :
    c.layout declarations = c'.layout declarations := by
  have run := sizes_of_valid valid
  have run' := sizes_of_valid valid'
  have assigned : c.assignment = c'.assignment := funext (assignment_same same)
  simp only [layout, place, run, run', bind, Except.bind, checkDeclarations_same same,
    slots_same same valid run run', placeStruct_same same, placeFields_same same,
    same.listed.length_eq, assigned]

end

theorem acyclic_of_ordered {order : List String} (ordered : c.ContainmentOrder order) (name : String) :
    ¬ Relation.TransGen c.Contains name name := by
  intro cycle
  obtain ⟨_, step, _⟩ := Relation.TransGen.head'_iff.mp cycle
  have mem := List.mem_reverse.mpr (ordered.members name (registered_of_contains step))
  exact finished_acyclic ordered.finished name mem cycle

theorem containmentOrder_ok_iff :
    (∃ order, c.containmentOrder = .ok order) ↔ ∀ name, ¬ Relation.TransGen c.Contains name name := by
  rcases c.containmentOrder_walks with ⟨order, run, ordered⟩ | ⟨path, run, cycle⟩
  · constructor
    · intro _
      exact acyclic_of_ordered ordered
    · intro _
      exact ⟨order, run⟩
  · constructor
    · rintro ⟨order, walked⟩
      rw [run] at walked
      contradiction
    · intro acyclic
      obtain ⟨name, back⟩ := cycle_transGen cycle
      exact absurd back (acyclic name)

/-- What the check of a catalog comes to: it passes, or fails with an error of a kind. -/
def verdict (c : Catalog) : Except CatalogError Unit :=
  (c.validate.map fun _ => ()).mapError CatalogError.bare

theorem verdict_unknown {e : CatalogError} (members : c.checkStructs c.structs = .error e) :
    c.verdict = .error (.unknownFieldType "" "" "") := by
  obtain ⟨owner, field, name, rfl⟩ := checkStructs_error members
  simp only [verdict, validate, members]
  rfl

theorem verdict_cyclic (members : c.checkStructs c.structs = .ok ())
    (cyclic : ¬ ∃ order, c.containmentOrder = .ok order) : c.verdict = .error (.cyclicStruct []) := by
  rcases c.containmentOrder_walks with ⟨order, run, -⟩ | ⟨path, run, -⟩
  · exact absurd ⟨order, run⟩ cyclic
  · simp only [verdict, validate, members, run]
    rfl

theorem verdict_valid {order : List String} (valid : c.validate = .ok order) : c.verdict = .ok () := by
  simp only [verdict, valid]
  rfl

theorem checkStructs_ok_iff (same : c.SameStructs c') :
    c.checkStructs c.structs = .ok () ↔ c'.checkStructs c'.structs = .ok () := by
  rw [checkStructs_eq_ok, checkStructs_eq_ok]
  simp only [same.listed.mem_iff, registered_same same]

theorem verdict_same (same : c.SameStructs c') : c.verdict = c'.verdict := by
  have checked := checkStructs_ok_iff same
  cases members : c.checkStructs c.structs with
  | error e =>
    cases members' : c'.checkStructs c'.structs with
    | error e' => rw [verdict_unknown members, verdict_unknown members']
    | ok _ =>
      rw [checked.mpr members'] at members
      contradiction
  | ok _ =>
    have members' := checked.mp members
    have orders : (∃ order, c.containmentOrder = .ok order) ↔ ∃ order, c'.containmentOrder = .ok order := by
      rw [containmentOrder_ok_iff, containmentOrder_ok_iff, contains_same same]
    by_cases acyclic : ∃ order, c.containmentOrder = .ok order
    · obtain ⟨order, run⟩ := acyclic
      obtain ⟨order', run'⟩ := orders.mp ⟨order, run⟩
      rw [verdict_valid (validate_eq_ok.mpr ⟨members, run⟩), verdict_valid (validate_eq_ok.mpr ⟨members', run'⟩)]
    · rw [verdict_cyclic members acyclic, verdict_cyclic members' fun ordered => acyclic (orders.mpr ordered)]

theorem verdict_error {e : CatalogError} (invalid : c.validate = .error e) : c.verdict = .error e.bare := by
  simp only [verdict, invalid]
  rfl

theorem layout_invalid {e : CatalogError} (invalid : c.validate = .error e) (declarations : List Declaration) :
    c.layout declarations = .error (.told (.catalog e)) := by
  simp only [layout, place, sizes, invalid]
  rfl

theorem Holds.sameStructs {rs rs' : List Registration} (holds : c.Holds rs) (holds' : c'.Holds rs')
    (reordered : rs.Perm rs') : c.SameStructs c' := by
  constructor
  · intro name
    by_cases named : ∃ r ∈ rs, r.name = name
    · obtain ⟨r, mem, rfl⟩ := named
      rw [holds.struct?_registered mem, holds'.struct?_registered (reordered.mem_iff.mp mem)]
    · have unknown : c.struct? name = none := by
        refine Option.eq_none_iff_forall_ne_some.mpr fun d found => named ?_
        obtain ⟨r, mem, -, eq⟩ := holds.struct?_eq_some found
        exact ⟨r, mem, eq⟩
      have unknown' : c'.struct? name = none := by
        refine Option.eq_none_iff_forall_ne_some.mpr fun d found => named ?_
        obtain ⟨r, mem, -, eq⟩ := holds'.struct?_eq_some found
        exact ⟨r, reordered.mem_iff.mpr mem, eq⟩
      rw [unknown, unknown']
  · rw [holds.structs, holds'.structs]
    exact reordered.filterMap _

theorem sameStructs_of_perm {calls calls' : List Registration}
    (distinct : (calls.map Registration.name).Nodup) (reordered : calls.Perm calls') :
    (Catalog.empty.afterCalls calls).SameStructs (Catalog.empty.afterCalls calls') := by
  have distinct' : (calls'.map Registration.name).Nodup :=
    (reordered.map Registration.name).nodup_iff.mp distinct
  have accepted : Catalog.empty.accepted calls = calls.filter Registration.fits :=
    holds_empty.accepted_of_distinct distinct
  have accepted' : Catalog.empty.accepted calls' = calls'.filter Registration.fits :=
    holds_empty.accepted_of_distinct distinct'
  apply (afterCalls_holds calls).sameStructs (afterCalls_holds calls')
  rw [accepted, accepted']
  exact reordered.filter _

/-- Two catalogs pass alike, and lay out all declarations alike: with equal layouts, or with errors of one
kind. Where they are valid the errors are equal too. -/
structure OrderLaw (c c' : Catalog) : Prop where
  validated : c.verdict = c'.verdict
  laidOut : ∀ declarations,
    (c.layout declarations).mapError (Failure.map LayoutError.bare) =
      (c'.layout declarations).mapError (Failure.map LayoutError.bare)
  valid : (∃ order, c.validate = .ok order) →
    ∀ declarations, c.layout declarations = c'.layout declarations

theorem layouts_free_of_order (calls calls' : List Registration)
    (distinct : (calls.map Registration.name).Nodup) (reordered : calls.Perm calls') :
    OrderLaw (Catalog.empty.afterCalls calls) (Catalog.empty.afterCalls calls') := by
  have same := sameStructs_of_perm distinct reordered
  generalize Catalog.empty.afterCalls calls = c at same
  generalize Catalog.empty.afterCalls calls' = c' at same
  have alike := verdict_same same
  -- Either both catalogs are valid, or neither is and both fail before anything is placed.
  cases checked : c.validate with
  | ok order =>
    cases checked' : c'.validate with
    | ok order' =>
      have equal := layout_same same checked checked'
      refine ⟨alike, ?_, fun _ => equal⟩
      intro declarations
      rw [equal]
    | error e' =>
      rw [verdict_valid checked, verdict_error checked'] at alike
      contradiction
  | error e =>
    cases checked' : c'.validate with
    | ok order' =>
      rw [verdict_error checked, verdict_valid checked'] at alike
      contradiction
    | error e' =>
      refine ⟨alike, ?_, ?_⟩
      · intro declarations
        rw [verdict_error checked, verdict_error checked'] at alike
        rw [layout_invalid checked, layout_invalid checked']
        exact congrArg (fun kind => Except.error (Failure.told (LayoutError.catalog kind))) (Except.error.inj alike)
      · rintro ⟨order, valid⟩
        rw [checked] at valid
        contradiction

def orderCalls : List Registration :=
  [.struct ⟨"Order", [⟨"status", .elementary (.uint 8)⟩, ⟨"party", .struct "Party"⟩]⟩, .enum "Status" 3,
    .struct ⟨"Party", [⟨"owner", .elementary .address⟩, ⟨"orders", .dynamicArray (.struct "Order")⟩]⟩]

def orderDeclarations : List Declaration :=
  [⟨"orders", .fixedArray (.struct "Order") 2, none, .mutable⟩, ⟨"open", .elementary .bool, none, .mutable⟩]

theorem orders_registered_backwards :
    (orderCalls.map Registration.name).Nodup ∧ orderCalls.Perm orderCalls.reverse ∧
      (Catalog.empty.afterCalls orderCalls).structs.map StructDef.name = ["Order", "Party"] ∧
      (Catalog.empty.afterCalls orderCalls.reverse).structs.map StructDef.name = ["Party", "Order"] ∧
      ((Catalog.empty.afterCalls orderCalls.reverse).layout orderDeclarations).map
        (fun l => (l.slotsUsed, l.assignments.map Assignment.signature)) =
          .ok (7, ["(uint8,(address,struct Order[]))[2]", "bool"]) ∧
      OrderLaw (Catalog.empty.afterCalls orderCalls) (Catalog.empty.afterCalls orderCalls.reverse) := by
  have distinct : (orderCalls.map Registration.name).Nodup := by decide
  have reordered : orderCalls.Perm orderCalls.reverse := (List.reverse_perm orderCalls).symm
  have law := layouts_free_of_order orderCalls orderCalls.reverse distinct reordered
  have laidOut : ((Catalog.empty.afterCalls orderCalls).layout orderDeclarations).map
      (fun l => (l.slotsUsed, l.assignments.map Assignment.signature)) =
        .ok (7, ["(uint8,(address,struct Order[]))[2]", "bool"]) := by decide +kernel
  have valid : ∃ order, (Catalog.empty.afterCalls orderCalls).validate = .ok order :=
    ⟨["Party", "Order"], by decide +kernel⟩
  rw [← law.valid valid orderDeclarations]
  exact ⟨distinct, reordered, by decide, by decide, laidOut, law⟩

end Catalog
end ContractRegistry
