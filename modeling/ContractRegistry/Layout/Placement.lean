import ContractRegistry.Layout.Scope
import ContractRegistry.Layout.Size

/-!
The layout of declarations.

Declarations are placed in order. A struct is followed by its members, which are placed by the same
rules from its first slot on.
-/
namespace ContractRegistry

/-- How a declaration is kept. Only mutable ones are in storage. -/
inductive Mutability where
  | mutable
  | constant
  | immutable
  | transient
deriving DecidableEq, Repr, Inhabited

inductive Visibility where
  | «public»
  | internal
  | «private»
deriving DecidableEq, Repr, Inhabited

structure Declaration where
  name : String
  ty : TypeRef
  visibility : Option Visibility
  mutability : Mutability
deriving DecidableEq, Repr, Inhabited

namespace Declaration

def isStored (d : Declaration) : Bool :=
  d.mutability = .mutable

def field (d : Declaration) : Field :=
  ⟨d.name, d.ty⟩

end Declaration

namespace Catalog

/-- Places members one after the other, each with what it contains. `inside` places the members of a
struct at a slot, under a path. -/
def placeFields (c : Catalog) (structSlots : String → LayoutResult Nat)
    (inside : String → Nat → String → LayoutResult Scope)
    (base : Nat) (pathOf : String → String) :
    Cursor → List Field → LayoutResult (Cursor × Scope)
  | cursor, [] => .ok (cursor, .empty)
  | cursor, f :: fs => do
    let path := pathOf f.name
    let space ← c.footprint structSlots path f.ty
    let (place, next) ← cursor.allot path space
    match Cursor.slotNumber? (base + place.slot) with
    | none => .error (.told (.overflow path))
    | some slot =>
      let members ← match f.ty with
        | .struct name => inside name slot path
        | _ => .ok .empty
      let (last, rest) ← c.placeFields structSlots inside base pathOf next fs
      .ok (last, .entry ⟨path, f.ty, space, slot, place.offset⟩ members rest)

/-- Places the members of a struct. In a valid catalog structs nest no deeper than their number. -/
def placeStruct (c : Catalog) (structSlots : String → LayoutResult Nat) :
    Nat → String → Nat → String → LayoutResult Scope
  | 0, name, _, _ => .error (.told (.catalog (.cyclicStruct [name])))
  | depth + 1, name, base, path =>
    match c.struct? name with
    | none => .error (.told (.catalog (.unknownType name)))
    | some d => do
      let (_, members) ← c.placeFields structSlots (c.placeStruct structSlots depth) base
        (memberPath path) .start d.fields
      .ok members

def checkDeclarations (c : Catalog) : List Declaration → Except CatalogError Unit
  | [] => .ok ()
  | d :: ds => do
    c.check d.ty
    c.checkDeclarations ds

def orFail : Except CatalogError α → LayoutResult α
  | .ok a => .ok a
  | .error cause => .error (.told (.catalog cause))

def sizes (c : Catalog) : LayoutResult Sizes := do
  let order ← orFail c.validate
  .ok (c.measureAll [] order)

def stored (declarations : List Declaration) : List Field :=
  (declarations.filter Declaration.isStored).map Declaration.field

/-- Places the declarations that are in storage. The catalog is checked first, and then the types of
the declarations. -/
def place (c : Catalog) (declarations : List Declaration) : LayoutResult (Cursor × Scope) := do
  let sizes ← c.sizes
  orFail (c.checkDeclarations (declarations.filter Declaration.isStored))
  c.placeFields sizes.slots (c.placeStruct sizes.slots c.structs.length) 0 id .start
    (stored declarations)

def layout (c : Catalog) (declarations : List Declaration) : LayoutResult Layout := do
  let (cursor, scope) ← c.place declarations
  let used ← cursor.slotsUsed
  .ok ⟨scope.listed.map c.assignment, used⟩

end Catalog

end ContractRegistry
