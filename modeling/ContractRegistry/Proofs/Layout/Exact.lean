import ContractRegistry.Proofs.Layout.Placed

/-!
Layouts reckoned with numbers of any size.

The exact layout follows the rules of the layout, but no number in it is too large, and it notes the
numbers that it needs in the order in which they come up. The layout is the exact one as long as these
numbers have 64 bits, and otherwise the failure of the first that has not.
-/
namespace ContractRegistry

open Numeral

inductive Need where
  /-- The slots of an array whose elements have slots of their own. -/
  | product (path : String) (count : Nat)
  /-- The slot after one that is in use. -/
  | next (slot : Nat)
  /-- The slot after those that a member takes. -/
  | behind (path : String) (slot : Nat)
  /-- The slot of a member, counted from the beginning of storage. -/
  | absolute (path : String) (slot : Nat)
deriving DecidableEq, Repr

namespace Need

def value : Need → Nat
  | .product _ count => count
  | .next slot => slot
  | .behind _ slot => slot
  | .absolute _ slot => slot

/-- What becomes of a layout that needs the number when it has more than 64 bits. -/
def failure : Need → Failure LayoutError
  | .next _ => .panic .addition
  | .product path _ => .told (.overflow path)
  | .behind path _ => .told (.overflow path)
  | .absolute path _ => .told (.overflow path)

end Need

/-- An outcome in numbers of any size, and the numbers that it needs, in their order. -/
structure Exact (α : Type) where
  needs : List Need
  outcome : LayoutResult α

namespace Exact

variable {α β : Type}

def lift (outcome : LayoutResult α) : Exact α :=
  ⟨[], outcome⟩

def need (n : Need) : Exact Nat :=
  ⟨[n], .ok n.value⟩

instance : Monad Exact where
  pure a := lift (.ok a)
  bind x f :=
    match x.outcome with
    | .ok a => ⟨x.needs ++ (f a).needs, (f a).outcome⟩
    | .error e => ⟨x.needs, .error e⟩

def tooLarge? (x : Exact α) : Option Need :=
  x.needs.find? fun n => limit64 ≤ n.value

def bounded (x : Exact α) : LayoutResult α :=
  match x.tooLarge? with
  | some n => .error n.failure
  | none => x.outcome

theorem bounded_eq_ok {x : Exact α} {a : α} :
    x.bounded = .ok a ↔ x.tooLarge? = none ∧ x.outcome = .ok a := by
  unfold bounded
  cases x.tooLarge? <;> simp

@[simp] theorem tooLarge?_lift (outcome : LayoutResult α) : (lift outcome).tooLarge? = none := rfl

@[simp] theorem bounded_lift (outcome : LayoutResult α) : (lift outcome).bounded = outcome := rfl

@[simp] theorem bounded_pure (a : α) : (pure a : Exact α).bounded = .ok a := rfl

theorem bounded_need (n : Need) :
    (need n).bounded =
      match Cursor.slotNumber? n.value with
      | some slot => .ok slot
      | none => .error n.failure := by
  by_cases fits : n.value < limit64
  · simp [bounded, tooLarge?, need, Cursor.slotNumber?, fits]
  · simp [bounded, tooLarge?, need, Cursor.slotNumber?, fits, Nat.le_of_not_lt fits]

theorem tooLarge?_bind (x : Exact α) (f : α → Exact β) :
    (x >>= f).tooLarge? = x.tooLarge?.or (x.outcome.toOption.bind fun a => (f a).tooLarge?) := by
  obtain ⟨needs, outcome⟩ := x
  cases outcome with
  | error e => simp [bind, tooLarge?, Except.toOption]
  | ok a => simp [bind, tooLarge?, Except.toOption, List.find?_append]

theorem outcome_bind (x : Exact α) (f : α → Exact β) :
    (x >>= f).outcome = x.outcome >>= fun a => (f a).outcome := by
  obtain ⟨needs, outcome⟩ := x
  cases outcome <;> rfl

@[simp] theorem bounded_bind (x : Exact α) (f : α → Exact β) :
    (x >>= f).bounded = x.bounded >>= fun a => (f a).bounded := by
  unfold bounded
  rw [tooLarge?_bind, outcome_bind]
  cases x.tooLarge? with
  | some n => rfl
  | none =>
    cases x.outcome with
    | error e => rfl
    | ok a => rfl

-- The rules are those of the same names, with the numbers that are needed in place of the ones that are
-- checked.

def nextSlot (c : Cursor) : Exact Cursor := do
  let slot ← need (.next (c.slot + 1))
  pure ⟨slot, 0⟩

def seat (c : Cursor) (size : Nat) : Exact Cursor :=
  if slotBytes < c.offset + size then nextSlot c else pure c

def freshSlot (c : Cursor) : Exact Cursor :=
  if c.offset = 0 then pure c else nextSlot c

def slotsUsed (c : Cursor) : Exact Nat := do
  let fresh ← freshSlot c
  pure fresh.slot

def allot (c : Cursor) (path : String) : Footprint → Exact (Cursor × Cursor)
  | .packed size => do
    let place ← seat c size
    pure (place, ⟨place.slot, place.offset + size⟩)
  | .slots count => do
    let place ← freshSlot c
    let slot ← need (.behind path (place.slot + count))
    pure (place, ⟨slot, 0⟩)

def arraySlots (path : String) (length : Nat) : Footprint → Exact Nat
  | .packed size => lift (Catalog.arraySlots path length (.packed size))
  | .slots each => need (.product path (length * each))

def footprint (c : Catalog) (structSlots : String → Exact Nat) (path : String) :
    TypeRef → Exact Footprint
  | .fixedArray element length =>
    if length = 0 then lift (.error (.told (.zeroLengthArray path)))
    else do
      let each ← footprint c structSlots path element
      let count ← arraySlots path length each
      pure (.slots count)
  | .struct name => do
    let count ← structSlots name
    pure (.slots count)
  -- What is no array of fixed length and no struct needs no number, nor the slots of a struct.
  | ty => lift (c.footprint (fun _ => .ok 0) path ty)

def measureFields (c : Catalog) (structSlots : String → Exact Nat) (owner : String) :
    Cursor → List Field → Exact Cursor
  | cursor, [] => pure cursor
  | cursor, f :: fs => do
    let path := Catalog.memberPath owner f.name
    let space ← footprint c structSlots path f.ty
    let (_, next) ← allot cursor path space
    measureFields c structSlots owner next fs

def measure (c : Catalog) (structSlots : String → Exact Nat) (d : StructDef) : Exact Nat :=
  if d.fields = [] then lift (.error (.told (.emptyStruct d.name)))
  else do
    let cursor ← measureFields c structSlots d.name .start d.fields
    slotsUsed cursor

def slots (sizes : List (String × Exact Nat)) (name : String) : Exact Nat :=
  match sizes.lookup name with
  | some count => count
  | none => lift (.error (.told (.catalog (.unknownType name))))

def measureAll (c : Catalog) : List (String × Exact Nat) → List String → List (String × Exact Nat)
  | sizes, [] => sizes
  | sizes, name :: names =>
    match c.struct? name with
    | some d => measureAll c ((name, measure c (slots sizes) d) :: sizes) names
    | none => measureAll c sizes names

def placeFields (c : Catalog) (structSlots : String → Exact Nat)
    (inside : String → Nat → String → Exact Scope) (base : Nat) (pathOf : String → String) :
    Cursor → List Field → Exact (Cursor × Scope)
  | cursor, [] => pure (cursor, .empty)
  | cursor, f :: fs => do
    let path := pathOf f.name
    let space ← footprint c structSlots path f.ty
    let (place, next) ← allot cursor path space
    let slot ← need (.absolute path (base + place.slot))
    let members ← match f.ty with
      | .struct name => inside name slot path
      | _ => pure .empty
    let (last, rest) ← placeFields c structSlots inside base pathOf next fs
    pure (last, .entry ⟨path, f.ty, space, slot, place.offset⟩ members rest)

def placeStruct (c : Catalog) (structSlots : String → Exact Nat) :
    Nat → String → Nat → String → Exact Scope
  | 0, name, _, _ => lift (.error (.told (.catalog (.cyclicStruct [name]))))
  | depth + 1, name, base, path =>
    match c.struct? name with
    | none => lift (.error (.told (.catalog (.unknownType name))))
    | some d => do
      let (_, members) ← placeFields c structSlots (placeStruct c structSlots depth) base
        (Catalog.memberPath path) .start d.fields
      pure members

def layout (c : Catalog) (declarations : List Declaration) : Exact Layout := do
  let order ← lift (Catalog.orFail c.validate)
  let sizes := measureAll c [] order
  lift (Catalog.orFail (c.checkDeclarations (declarations.filter Declaration.isStored)))
  let (cursor, scope) ← placeFields c (slots sizes) (placeStruct c (slots sizes) c.structs.length)
    0 id .start (Catalog.stored declarations)
  let used ← slotsUsed cursor
  pure ⟨scope.listed.map c.assignment, used⟩

theorem bounded_nextSlot (c : Cursor) : (nextSlot c).bounded = c.nextSlot := by
  simp only [nextSlot, bounded_bind, bounded_need, Need.value, Cursor.nextSlot]
  cases Cursor.slotNumber? (c.slot + 1) <;> rfl

theorem bounded_seat (c : Cursor) (size : Nat) : (seat c size).bounded = c.seat size := by
  unfold seat Cursor.seat
  split
  · exact bounded_nextSlot c
  · rfl

theorem bounded_freshSlot (c : Cursor) : (freshSlot c).bounded = c.freshSlot := by
  unfold freshSlot Cursor.freshSlot
  split
  · rfl
  · exact bounded_nextSlot c

theorem bounded_slotsUsed (c : Cursor) : (slotsUsed c).bounded = c.slotsUsed := by
  simp only [slotsUsed, bounded_bind, bounded_freshSlot, bounded_pure]
  rfl

theorem bounded_allot (c : Cursor) (path : String) (space : Footprint) :
    (allot c path space).bounded = c.allot path space := by
  cases space with
  | packed size =>
    simp only [allot, bounded_bind, bounded_seat, bounded_pure]
    rfl
  | slots count =>
    simp only [allot, bounded_bind, bounded_freshSlot, bounded_need, Need.value, Cursor.allot]
    refine congrArg (c.freshSlot >>= ·) (funext fun place => ?_)
    cases Cursor.slotNumber? (place.slot + count) <;> rfl

theorem bounded_arraySlots (path : String) (length : Nat) (each : Footprint) :
    (arraySlots path length each).bounded = Catalog.arraySlots path length each := by
  cases each with
  | packed size => rfl
  | slots each =>
    simp only [arraySlots, bounded_need, Need.value, Catalog.arraySlots]
    cases Cursor.slotNumber? (length * each) <;> rfl

variable {c : Catalog} {slotsOf : String → Exact Nat}

theorem bounded_footprint (path : String) (ty : TypeRef) :
    (footprint c slotsOf path ty).bounded = c.footprint (fun name => (slotsOf name).bounded) path ty := by
  induction ty with
  | fixedArray element length ih =>
    simp only [footprint, Catalog.footprint]
    split
    · rfl
    · simp only [bounded_bind, ih, bounded_arraySlots, bounded_pure]
  | struct name => exact bounded_bind _ _
  | mapping key value _ _ => cases key <;> rfl
  | elementary kind => rfl
  | dynamicArray element _ => rfl

theorem bounded_measureFields (owner : String) (cursor : Cursor) (fields : List Field) :
    (measureFields c slotsOf owner cursor fields).bounded =
      c.measureFields (fun name => (slotsOf name).bounded) owner cursor fields := by
  induction fields generalizing cursor with
  | nil => rfl
  | cons f fs ih =>
    simp only [measureFields, bounded_bind, bounded_footprint, bounded_allot, ih, Catalog.measureFields]

theorem bounded_measure (d : StructDef) :
    (measure c slotsOf d).bounded = c.measure (fun name => (slotsOf name).bounded) d := by
  unfold measure Catalog.measure
  split
  · rfl
  · simp only [bounded_bind, bounded_measureFields, bounded_slotsUsed]

def boundedSizes (sizes : List (String × Exact Nat)) : Catalog.Sizes :=
  sizes.map fun entry => (entry.1, entry.2.bounded)

theorem bounded_slots (sizes : List (String × Exact Nat)) :
    (fun name => (slots sizes name).bounded) = (boundedSizes sizes).slots := by
  funext name
  simp only [slots, Catalog.Sizes.slots]
  induction sizes with
  | nil => rfl
  | cons entry rest ih =>
    obtain ⟨known, count⟩ := entry
    simp only [boundedSizes, List.map_cons, List.lookup_cons] at ih ⊢
    cases name == known
    · exact ih
    · rfl

theorem bounded_measureAll (sizes : List (String × Exact Nat)) (names : List String) :
    boundedSizes (measureAll c sizes names) = c.measureAll (boundedSizes sizes) names := by
  induction names generalizing sizes with
  | nil => rfl
  | cons name names ih =>
    simp only [measureAll, Catalog.measureAll]
    cases c.struct? name with
    | none => exact ih sizes
    | some d =>
      have measured : boundedSizes ((name, measure c (slots sizes) d) :: sizes) =
          (name, c.measure (boundedSizes sizes).slots d) :: boundedSizes sizes := by
        rw [← bounded_slots, ← bounded_measure]
        rfl
      exact (ih _).trans (congrArg (c.measureAll · names) measured)

theorem bounded_placeFields {inside : String → Nat → String → Exact Scope} (base : Nat)
    (pathOf : String → String) (cursor : Cursor) (fields : List Field) :
    (placeFields c slotsOf inside base pathOf cursor fields).bounded =
      c.placeFields (fun name => (slotsOf name).bounded)
        (fun name base path => (inside name base path).bounded) base pathOf cursor fields := by
  induction fields generalizing cursor with
  | nil => rfl
  | cons f fs ih =>
    simp only [placeFields, Catalog.placeFields, bounded_bind, bounded_footprint, bounded_allot,
      bounded_need, Need.value]
    refine congrArg (_ >>= ·) (funext fun space => ?_)
    refine congrArg (_ >>= ·) (funext fun places => ?_)
    obtain ⟨place, next⟩ := places
    cases Cursor.slotNumber? (base + place.slot) with
    | none => rfl
    | some slot => cases f.ty <;> simp only [bounded_bind, ih, bounded_pure] <;> rfl

theorem bounded_placeStruct (depth : Nat) (name : String) (base : Nat) (path : String) :
    (placeStruct c slotsOf depth name base path).bounded =
      c.placeStruct (fun name => (slotsOf name).bounded) depth name base path := by
  induction depth generalizing name base path with
  | zero => rfl
  | succ depth ih =>
    simp only [placeStruct, Catalog.placeStruct]
    cases c.struct? name with
    | none => rfl
    | some d => simp only [bounded_bind, bounded_placeFields, ih, bounded_pure]

theorem bounded_layout (declarations : List Declaration) :
    (layout c declarations).bounded = c.layout declarations := by
  simp only [layout, Catalog.layout, Catalog.place, Catalog.sizes, bounded_bind, bounded_lift,
    bounded_placeFields, bounded_placeStruct, bounded_slotsUsed, bounded_pure, bounded_slots,
    bounded_measureAll, bind_assoc]
  rfl

end Exact

end ContractRegistry
