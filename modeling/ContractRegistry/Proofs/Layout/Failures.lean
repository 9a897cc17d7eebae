import ContractRegistry.Proofs.Layout.Depth
import ContractRegistry.Proofs.Layout.Exact
import ContractRegistry.Proofs.Layout.Nesting

/-!
How layouts fail.

A number that is too large fails in its own way. The slots of an array and the slot behind a member are
checked, and a layout that needs a larger one overflows. Once they pass, the slot of a member counted from
the beginning of storage is small enough: the members of a struct lie in the slots of the struct, and these
were checked. What is not checked is the step from the last slot of storage to the next.

Among the other failures are those of types that are not well formed. The rest are told by the catalog, or
come from values that do not divide a slot. Sized values do, and in a valid catalog no struct contains
itself and all structs in members are registered.
-/
namespace ContractRegistry

open Numeral

/-- Whether a number can be the first that is too large. -/
def Need.CanExceed : Need → Prop
  | .product _ _ => True
  | .next slot => slot = limit64
  | .behind _ _ => True
  | .absolute _ _ => False

inductive LayoutError.Unfit : LayoutError → Prop where
  | unknownType (name : String) : Unfit (.catalog (.unknownType name))
  | emptyStruct (name : String) : Unfit (.emptyStruct name)
  | zeroLengthArray (path : String) : Unfit (.zeroLengthArray path)
  | invalidMappingKey (path key : String) : Unfit (.invalidMappingKey path key)

def FailsIn (P : Failure LayoutError → Prop) {α : Type} (outcome : LayoutResult α) : Prop :=
  ∀ e, outcome = .error e → P e

section
variable {P : Failure LayoutError → Prop} {α β : Type}

theorem failsIn_ok (a : α) : FailsIn P (.ok a) :=
  fun _ fails => by contradiction

theorem failsIn_error {e : Failure LayoutError} (holds : P e) : FailsIn P (.error e : LayoutResult α) :=
  fun _ fails => Except.error.inj fails ▸ holds

theorem failsIn_then_ok {x : LayoutResult α} (fails : FailsIn P x) (f : α → β) :
    FailsIn P (x >>= fun a => .ok (f a)) := by
  cases x with
  | error e => exact failsIn_error (fails e rfl)
  | ok a => exact failsIn_ok (f a)

theorem failsIn_orFail {x : Except CatalogError α} (fails : ∀ e, x = .error e → P (.told (.catalog e))) :
    FailsIn P (Catalog.orFail x) := by
  cases x with
  | error e => exact failsIn_error (fails e rfl)
  | ok a => exact failsIn_ok a

variable (unfit : ∀ e : LayoutError, e.Unfit → P (.told e))
include unfit

theorem checkRemote_fails (c : Catalog) (path : String) (ty : TypeRef) :
    FailsIn P (c.checkRemote path ty) := by
  induction ty with
  | elementary kind => exact failsIn_ok ()
  | fixedArray element length ih =>
    unfold Catalog.checkRemote
    split
    · exact failsIn_error (unfit _ (.zeroLengthArray path))
    · exact ih
  | dynamicArray element ih => exact ih
  | mapping key value _ ih =>
    cases key with
    | elementary kind => exact ih
    | _ => exact failsIn_error (unfit _ (.invalidMappingKey path _))
  | struct name =>
    unfold Catalog.checkRemote
    split
    · exact failsIn_error (unfit _ (.unknownType name))
    · split
      · exact failsIn_error (unfit _ (.emptyStruct name))
      · exact failsIn_ok ()

theorem checkDeclarations_fails (c : Catalog) (declarations : List Declaration) :
    FailsIn P (Catalog.orFail (c.checkDeclarations declarations)) := by
  induction declarations with
  | nil => exact failsIn_ok ()
  | cons d ds ih =>
    simp only [Catalog.checkDeclarations, Catalog.check]
    split
    · exact failsIn_error (unfit _ (.unknownType _))
    · exact ih

end

namespace Exact

variable {P : Failure LayoutError → Prop} {α β : Type}

/-- Every failure is that of a number that can exceed, or has a property. -/
structure Guarded (P : Failure LayoutError → Prop) (x : Exact α) : Prop where
  number : ∀ n, x.tooLarge? = some n → n.CanExceed
  rest : x.tooLarge? = none → FailsIn P x.outcome

theorem guarded_lift {outcome : LayoutResult α} (fails : FailsIn P outcome) : (lift outcome).Guarded P :=
  ⟨fun _ large => by simp at large, fun _ => fails⟩

theorem guarded_pure (a : α) : (pure a : Exact α).Guarded P :=
  guarded_lift (failsIn_ok a)

theorem guarded_need {n : Need} (guard : limit64 ≤ n.value → n.CanExceed) : (need n).Guarded P := by
  constructor
  · intro m large
    have found := List.find?_some large
    have mem := List.mem_of_find?_eq_some large
    rw [List.mem_singleton.mp mem] at found ⊢
    exact guard (by simpa using found)
  · intro _ e fails
    contradiction

theorem guarded_bind {x : Exact α} {f : α → Exact β} (first : x.Guarded P)
    (next : ∀ a, x.bounded = .ok a → (f a).Guarded P) : (x >>= f).Guarded P := by
  have parts := tooLarge?_bind x f
  have outcomes := outcome_bind x f
  cases large : x.tooLarge? with
  | some n =>
    rw [large, Option.some_or] at parts
    constructor
    · intro m found
      rw [parts] at found
      exact first.number m (large.trans found)
    · intro small
      rw [parts] at small
      contradiction
  | none =>
    rw [large, Option.none_or] at parts
    cases ran : x.outcome with
    | error e =>
      rw [ran] at parts outcomes
      constructor
      · intro n found
        rw [parts] at found
        contradiction
      · intro _ e' fails
        obtain rfl : e = e' := Except.error.inj (outcomes.symm.trans fails)
        exact first.rest large e ran
    | ok a =>
      rw [ran] at parts outcomes
      have rest := next a (bounded_eq_ok.mpr ⟨large, ran⟩)
      exact ⟨fun n found => rest.number n (parts.symm.trans found),
        fun small e fails => rest.rest (parts.symm.trans small) e (outcomes.symm.trans fails)⟩

theorem guarded_nextSlot {c : Cursor} (small : c.slot < limit64) : (nextSlot c).Guarded P := by
  refine guarded_bind (guarded_need fun large => ?_) fun _ _ => guarded_pure _
  simp only [Need.value] at large
  simp only [Need.CanExceed]
  omega

theorem guarded_seat {c : Cursor} {size : Nat} (small : c.slot < limit64) : (seat c size).Guarded P := by
  unfold seat
  split
  · exact guarded_nextSlot small
  · exact guarded_pure c

theorem guarded_freshSlot {c : Cursor} (small : c.slot < limit64) : (freshSlot c).Guarded P := by
  unfold freshSlot
  split
  · exact guarded_pure c
  · exact guarded_nextSlot small

theorem guarded_slotsUsed {c : Cursor} (small : c.slot < limit64) : (slotsUsed c).Guarded P :=
  guarded_bind (guarded_freshSlot small) fun _ _ => guarded_pure _

theorem guarded_allot {c : Cursor} (small : c.slot < limit64) (path : String) (space : Footprint) :
    (allot c path space).Guarded P := by
  cases space with
  | packed size => exact guarded_bind (guarded_seat small) fun _ _ => guarded_pure _
  | slots count =>
    refine guarded_bind (guarded_freshSlot small) fun place _ => ?_
    exact guarded_bind (guarded_need fun _ => trivial) fun _ _ => guarded_pure _

variable {c : Catalog}

/-- A value of the array takes between one byte and a slot, so a whole number of them fits in a slot. -/
theorem guarded_arraySlots (path : String) (length : Nat) {each : Footprint}
    (divides : each.Sized ∨ P (.panic .division)) : (arraySlots path length each).Guarded P := by
  cases each with
  | packed size =>
    refine guarded_lift ?_
    simp only [Catalog.arraySlots]
    split
    · rename_i odd
      rcases divides with sized | division
      · have least : 1 ≤ size := sized.1
        have most : size ≤ slotBytes := sized.2
        omega
      · exact failsIn_error division
    · exact failsIn_ok _
  | slots each => exact guarded_need fun _ => trivial

variable {slotsOf : String → Exact Nat} (unfit : ∀ e : LayoutError, e.Unfit → P (.told e))
include unfit

theorem guarded_footprint (structs : ∀ name, (slotsOf name).Guarded P) (path : String) {ty : TypeRef}
    (divides : ty.Sized ∨ P (.panic .division)) : (footprint c slotsOf path ty).Guarded P := by
  induction ty with
  | fixedArray element length ih =>
    unfold footprint
    split
    · exact guarded_lift (failsIn_error (unfit _ (.zeroLengthArray path)))
    · have divides : element.Sized ∨ P (.panic .division) := divides
      refine guarded_bind (ih divides) fun each measured => ?_
      rw [bounded_footprint] at measured
      have each_divides := divides.imp_left fun sized => Catalog.footprint_sized sized measured
      exact guarded_bind (guarded_arraySlots path length each_divides) fun _ _ => guarded_pure _
  | struct name => exact guarded_bind (structs name) fun _ _ => guarded_pure _
  | elementary kind =>
    refine guarded_lift ?_
    unfold Catalog.footprint
    split <;> exact failsIn_ok _
  | dynamicArray element _ =>
    exact guarded_lift (failsIn_then_ok (checkRemote_fails unfit c path element) fun _ => Footprint.slots 1)
  | mapping key value _ _ =>
    cases key with
    | elementary kind =>
      exact guarded_lift (failsIn_then_ok (checkRemote_fails unfit c path value) fun _ => Footprint.slots 1)
    | _ => exact guarded_lift (failsIn_error (unfit _ (.invalidMappingKey path _)))

theorem guarded_measureFields (structs : ∀ name, (slotsOf name).Guarded P) (owner : String)
    {cursor : Cursor} (small : cursor.slot < limit64) {fields : List Field}
    (divides : (∀ f ∈ fields, f.ty.Sized) ∨ P (.panic .division)) :
    (measureFields c slotsOf owner cursor fields).Guarded P := by
  induction fields generalizing cursor with
  | nil => exact guarded_pure cursor
  | cons f fs ih =>
    have first := divides.imp_left fun all => all f List.mem_cons_self
    have others := divides.imp_left fun all g mem => all g (List.mem_cons_of_mem f mem)
    refine guarded_bind (guarded_footprint unfit structs _ first) fun space _ => ?_
    refine guarded_bind (guarded_allot small _ space) fun places allotted => ?_
    obtain ⟨place, next⟩ := places
    rw [bounded_allot] at allotted
    exact ih (Cursor.allot_slot_lt small allotted) others

theorem guarded_measure (structs : ∀ name, (slotsOf name).Guarded P) {d : StructDef}
    (divides : (∀ f ∈ d.fields, f.ty.Sized) ∨ P (.panic .division)) : (measure c slotsOf d).Guarded P := by
  unfold measure
  split
  · exact guarded_lift (failsIn_error (unfit _ (.emptyStruct d.name)))
  · have start : Cursor.start.slot < limit64 := by decide
    refine guarded_bind (guarded_measureFields unfit structs d.name start divides) fun last measured => ?_
    rw [bounded_measureFields] at measured
    exact guarded_slotsUsed ((Catalog.measureFields_slot measured).2 start)

theorem guarded_slots {sizes : List (String × Exact Nat)} (all : ∀ entry ∈ sizes, entry.2.Guarded P)
    (name : String) : (slots sizes name).Guarded P := by
  unfold slots
  split
  · rename_i count found
    obtain ⟨before, after, rfl, _⟩ := List.lookup_eq_some_iff.mp found
    exact all (name, count) (by simp)
  · exact guarded_lift (failsIn_error (unfit _ (.unknownType name)))

theorem guarded_measureAll (divides : c.Sized ∨ P (.panic .division)) {sizes : List (String × Exact Nat)}
    (all : ∀ entry ∈ sizes, entry.2.Guarded P) (names : List String) :
    ∀ entry ∈ measureAll c sizes names, entry.2.Guarded P := by
  induction names generalizing sizes with
  | nil => exact all
  | cons name names ih =>
    simp only [measureAll]
    split
    · rename_i d found
      have members := divides.imp_left fun types => types d (Catalog.struct?_mem found)
      have measured := guarded_measure (c := c) unfit (guarded_slots unfit all) members
      exact ih (List.forall_mem_cons.mpr ⟨measured, all⟩)
    · exact ih all

omit unfit

/-- The members that are left end at a slot that can be numbered, counted from the beginning of
storage. -/
def Room (c : Catalog) (slots : String → LayoutResult Nat) (base : Nat) (cursor : Cursor)
    (fields : List Field) : Prop :=
  cursor.slot < limit64 ∧ (base = 0 ∨ ∃ owner last,
    c.measureFields slots owner cursor fields = .ok last ∧ base + last.slot < limit64)

/-- Where there is room for several members, there is room for the first, and for the others behind
it. -/
theorem room_next {slots : String → LayoutResult Nat} {base : Nat} {path : String}
    {cursor place next : Cursor} {f : Field} {fs : List Field} {space : Footprint}
    (room : Room c slots base cursor (f :: fs)) (measured : c.footprint slots path f.ty = .ok space)
    (allotted : cursor.allot path space = .ok (place, next)) :
    base + next.slot < limit64 ∧ Room c slots base next fs := by
  obtain ⟨small, top | ⟨owner, last, run, fits⟩⟩ := room
  · have step := Cursor.allot_slot_lt small allotted
    exact ⟨by omega, step, .inl top⟩
  · rw [Catalog.measureFields_cons measured allotted] at run
    have onward := (Catalog.measureFields_slot run).1
    exact ⟨by omega, Cursor.allot_slot_lt small allotted, .inr ⟨owner, last, run, fits⟩⟩

include unfit

theorem guarded_placeFields {inside : String → Nat → String → Exact Scope}
    (structs : ∀ name, (slotsOf name).Guarded P) {base : Nat} {pathOf : String → String} {cursor : Cursor}
    {fields : List Field} (divides : (∀ f ∈ fields, f.ty.Sized) ∨ P (.panic .division))
    (insides : ∀ f ∈ fields, ∀ name, f.ty = .struct name → ∀ count base path,
      (slotsOf name).bounded = .ok count → base + count < limit64 → (inside name base path).Guarded P)
    (room : Room c (fun name => (slotsOf name).bounded) base cursor fields) :
    (placeFields c slotsOf inside base pathOf cursor fields).Guarded P := by
  induction fields generalizing cursor with
  | nil => exact guarded_pure _
  | cons f fs ih =>
    have first := divides.imp_left fun all => all f List.mem_cons_self
    have others := divides.imp_left fun all g mem => all g (List.mem_cons_of_mem f mem)
    obtain ⟨opens, behind⟩ := List.forall_mem_cons.mp insides
    refine guarded_bind (guarded_footprint unfit structs _ first) fun space measured => ?_
    refine guarded_bind (guarded_allot room.1 _ space) fun places allotted => ?_
    obtain ⟨place, next⟩ := places
    rw [bounded_footprint] at measured
    rw [bounded_allot] at allotted
    obtain ⟨fits, room'⟩ := room_next room measured allotted
    have step := Cursor.allot_slot_le allotted
    -- The slot of the member is not behind the slot that the cursor goes on to.
    have addressed : (need (.absolute (pathOf f.name) (base + place.slot))).Guarded P :=
      guarded_need fun large => by simp only [Need.value] at large; omega
    refine guarded_bind addressed fun slot numbered => ?_
    obtain rfl : base + place.slot = slot := Except.ok.inj (bounded_eq_ok.mp numbered).2
    split
    · rename_i name named
      rw [named] at measured
      obtain ⟨count, known, eq⟩ := bind_eq_ok.mp measured
      rw [← Except.ok.inj eq] at allotted
      have stops : next.slot = place.slot + count :=
        congrArg Cursor.slot (Cursor.allot_slots allotted).2
      have members := opens name named count (base + place.slot) (pathOf f.name) known (by omega)
      refine guarded_bind members fun _ _ => ?_
      exact guarded_bind (ih others behind room') fun _ _ => guarded_pure _
    · refine guarded_bind (guarded_pure _) fun _ _ => ?_
      exact guarded_bind (ih others behind room') fun _ _ => guarded_pure _

theorem guarded_placeStruct (structs : ∀ name, (slotsOf name).Guarded P)
    (divides : c.Sized ∨ P (.panic .division))
    (sound : ∀ name count, (slotsOf name).bounded = .ok count →
      ∃ d, c.struct? name = some d ∧ c.measure (fun name => (slotsOf name).bounded) d = .ok count)
    {depth : Nat} {name : String} {count base : Nat} {path : String}
    (ends : c.EndsWithin depth name)
    (known : (slotsOf name).bounded = .ok count) (fits : base + count < limit64) :
    (placeStruct c slotsOf depth name base path).Guarded P := by
  induction depth generalizing name count base path with
  | zero => exact ends.elim
  | succ depth ih =>
    obtain ⟨d, found, measured⟩ := sound name count known
    have members := divides.imp_left fun types => types d (Catalog.struct?_mem found)
    simp only [placeStruct, found]
    refine guarded_bind ?_ fun _ _ => guarded_pure _
    -- The members use the slots that the struct was measured with, so they have room where it has.
    refine guarded_placeFields unfit structs members ?_ ⟨by decide, .inr ?_⟩
    · intro f mem child named count base path
      exact ih (ends d found f mem child named)
    · obtain ⟨_, last, run, used⟩ := Catalog.measure_eq_ok.mp measured
      have := Cursor.slot_le_slotsUsed used
      exact ⟨d.name, last, run, by omega⟩

/-- A layout fails in one of its numbers, or in a type that is not well formed, unless there are values that
do not divide a slot, or the catalog is not valid. -/
theorem guarded_layout {declarations : List Declaration}
    (divides : c.Sized ∧ (∀ d ∈ declarations, d.ty.Sized) ∨ P (.panic .division))
    (valid : (∃ order, c.validate = .ok order) ∨ ∀ e, P (.told (.catalog e))) :
    (layout c declarations).Guarded P := by
  have told : FailsIn P (Catalog.orFail c.validate) := by
    refine failsIn_orFail fun e invalid => ?_
    rcases valid with ⟨order, valid⟩ | all
    · rw [valid] at invalid
      contradiction
    · exact all e
  refine guarded_bind (guarded_lift told) fun order ordered => ?_
  refine guarded_bind (guarded_lift (checkDeclarations_fails unfit c _)) fun _ checked => ?_
  have known := Catalog.checkDeclarations_eq_ok.mp (Catalog.orFail_eq_ok.mp checked)
  have types := divides.imp_left And.left
  have all : ∀ entry ∈ measureAll c [] order, entry.2.Guarded P :=
    guarded_measureAll unfit types (by simp) order
  have structs := guarded_slots unfit all
  have sound : (boundedSizes (measureAll c [] order)).Sound c := by
    rw [bounded_measureAll]
    exact Catalog.measureAll_sound (Catalog.Sizes.sound_nil c) order
  rw [Catalog.Sizes.Sound, ← bounded_slots] at sound
  have stored := divides.imp_left fun sized => stored_sized sized.2
  -- Nothing is around the declarations: their slots are those of the cursor.
  refine guarded_bind (guarded_placeFields unfit structs stored ?_ ⟨by decide, .inl rfl⟩) ?_
  · intro f mem name named count base path
    obtain ⟨d, given, rfl⟩ := List.mem_map.mp mem
    have stores : d.ty.Mentions name := by
      rw [show d.ty = _ from named]
      exact .struct name
    have ordered := Catalog.orFail_eq_ok.mp ordered
    have ends := Catalog.endsWithin_of_valid ordered (known d given name stores) (Nat.le_refl _)
    exact guarded_placeStruct unfit structs types sound ends
  · rintro ⟨cursor, scope⟩ run
    simp only [bounded_placeFields, bounded_placeStruct] at run
    have placed := Catalog.placeFields_placed (fun _ _ _ _ => Catalog.placeStruct_placed) run
    have small := (Catalog.measureFields_slot (placed_measures placed "")).2 (by decide)
    exact guarded_bind (guarded_slotsUsed small) fun _ _ => guarded_pure _

end Exact

/-- An error about what is declared: it is not well formed, or it does not fit in storage. -/
inductive LayoutError.Declared : LayoutError → Prop where
  | unfit {e : LayoutError} (is_unfit : e.Unfit) : Declared e
  | overflow (path : String) : Declared (.overflow path)

theorem Need.told_declared {n : Need} (exceeds : n.CanExceed) :
    (∃ e, n.failure = .told e ∧ e.Declared) ∨ n.failure = .panic .addition := by
  cases n with
  | next slot => exact .inr rfl
  | product path count => exact .inl ⟨_, rfl, .overflow path⟩
  | behind path slot => exact .inl ⟨_, rfl, .overflow path⟩
  | absolute path slot => exact exceeds.elim

namespace Catalog

variable {c : Catalog}

/-- In a valid catalog with sized types, the layout of sized declarations fails in what is declared, or has
no slot to go on to. -/
theorem layout_declared {order : List String} (valid : c.validate = .ok order) (types : c.Sized)
    {declarations : List Declaration} (sized : ∀ d ∈ declarations, d.ty.Sized)
    {e : Failure LayoutError} (fails : c.layout declarations = .error e) :
    (∃ cause, e = .told cause ∧ cause.Declared) ∨ e = .panic .addition := by
  have guarded : (Exact.layout c declarations).Guarded fun e => ∃ cause, e = .told cause ∧ cause.Unfit :=
    Exact.guarded_layout (fun cause unfit => ⟨cause, rfl, unfit⟩) (.inl ⟨types, sized⟩)
      (.inl ⟨order, valid⟩)
  rw [← Exact.bounded_layout, Exact.bounded] at fails
  cases large : (Exact.layout c declarations).tooLarge? with
  | some n =>
    rw [large] at fails
    exact Except.error.inj fails ▸ Need.told_declared (guarded.number n large)
  | none =>
    rw [large] at fails
    obtain ⟨cause, rfl, unfit⟩ := guarded.rest large e fails
    exact .inl ⟨cause, rfl, .unfit unfit⟩

end Catalog

end ContractRegistry
