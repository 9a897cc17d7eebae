import ContractRegistry.Catalog.Containment
import ContractRegistry.Layout.Cursor
import ContractRegistry.Layout.Signature

/-!
The space that types need.

Structs are measured in the order of containment, so that the size of each is known before it is
needed. What a mapping or a dynamic array holds is not stored in place and has no part in its size,
but must be well formed.
-/
namespace ContractRegistry

namespace Catalog

/-- Checks a type that is stored away from its declaration. A struct there may be one of those around
it; its members are checked where it is laid out itself. -/
def checkRemote (c : Catalog) (path : String) : TypeRef → LayoutResult Unit
  | .elementary _ => .ok ()
  | .fixedArray element length =>
    if length = 0 then .error (.told (.zeroLengthArray path)) else c.checkRemote path element
  | .dynamicArray element => c.checkRemote path element
  | .mapping (.elementary _) value => c.checkRemote path value
  | .mapping key _ => .error (.told (.invalidMappingKey path (c.signature key)))
  | .struct name =>
    match c.struct? name with
    | none => .error (.told (.catalog (.unknownType name)))
    | some d => if d.fields = [] then .error (.told (.emptyStruct name)) else .ok ()

/-- The slots of `length` elements. Values share slots as far as they fit. -/
def arraySlots (path : String) (length : Nat) : Footprint → LayoutResult Nat
  | .packed size =>
    if size = 0 ∨ slotBytes < size then .error (.panic .division)
    else
      let perSlot := slotBytes / size
      .ok ((length + perSlot - 1) / perSlot)
  | .slots each =>
    match Cursor.slotNumber? (length * each) with
    | some count => .ok count
    | none => .error (.told (.overflow path))

def footprint (c : Catalog) (structSlots : String → LayoutResult Nat) (path : String) :
    TypeRef → LayoutResult Footprint
  | .elementary kind =>
    match kind.packedSize? with
    | some size => .ok (.packed size)
    | none => .ok (.slots 1)
  | .fixedArray element length =>
    if length = 0 then .error (.told (.zeroLengthArray path))
    else do
      let each ← c.footprint structSlots path element
      let count ← arraySlots path length each
      .ok (.slots count)
  | .dynamicArray element => do
    c.checkRemote path element
    .ok (.slots 1)
  | .mapping (.elementary _) value => do
    c.checkRemote path value
    .ok (.slots 1)
  | .mapping key _ => .error (.told (.invalidMappingKey path (c.signature key)))
  | .struct name => do
    let count ← structSlots name
    .ok (.slots count)

def memberPath (path : String) (member : String) : String :=
  path ++ "." ++ member

def measureFields (c : Catalog) (structSlots : String → LayoutResult Nat) (owner : String) :
    Cursor → List Field → LayoutResult Cursor
  | cursor, [] => .ok cursor
  | cursor, f :: fs => do
    let path := memberPath owner f.name
    let space ← c.footprint structSlots path f.ty
    let (_, next) ← cursor.allot path space
    c.measureFields structSlots owner next fs

def measure (c : Catalog) (structSlots : String → LayoutResult Nat) (d : StructDef) :
    LayoutResult Nat :=
  if d.fields = [] then .error (.told (.emptyStruct d.name))
  else do
    let cursor ← c.measureFields structSlots d.name .start d.fields
    cursor.slotsUsed

abbrev Sizes := List (String × LayoutResult Nat)

namespace Sizes

def slots (sizes : Sizes) (name : String) : LayoutResult Nat :=
  match List.lookup name sizes with
  | some count => count
  | none => .error (.told (.catalog (.unknownType name)))

end Sizes

def measureAll (c : Catalog) : Sizes → List String → Sizes
  | sizes, [] => sizes
  | sizes, name :: names =>
    match c.struct? name with
    | some d => c.measureAll ((name, c.measure (Sizes.slots sizes) d) :: sizes) names
    | none => c.measureAll sizes names

end Catalog

end ContractRegistry
