import ContractRegistry.Layout.Assignment
import ContractRegistry.Layout.Cursor
import ContractRegistry.Layout.Signature

/-!
Scopes: what is placed, and what is placed inside it.

The declarations form a scope, and so do the members of every struct among them. A layout lists the
entries of its scope, each followed by those inside it.
-/
namespace ContractRegistry

/-- The largest size that can be told. A larger one is told as this. -/
def largestSize : Nat :=
  Numeral.limit64 - 1

namespace Footprint

def bytes : Footprint → Nat
  | .packed size => size
  | .slots count => min (count * slotBytes) largestSize

end Footprint

def TypeRef.role : TypeRef → Role
  | .struct _ => .composite
  | .mapping _ _ => .baseSlot
  | .dynamicArray _ => .baseSlot
  | .elementary kind => if kind.isDynamic then .baseSlot else .value
  | .fixedArray _ _ => .value

/-- A variable or a member in its place: the space that it needs, its slot and its first byte there. -/
structure Entry where
  path : String
  ty : TypeRef
  space : Footprint
  slot : Nat
  offset : Nat
deriving DecidableEq, Repr

/-- The entries of a scope, in order. The members of a struct are a scope of their own; what is no
struct has none. -/
inductive Scope where
  | empty
  | entry (e : Entry) (members : Scope) (rest : Scope)
deriving DecidableEq, Repr

namespace Scope

def entries : Scope → List Entry
  | .empty => []
  | .entry e _ rest => e :: rest.entries

def listed : Scope → List Entry
  | .empty => []
  | .entry e members rest => e :: members.listed ++ rest.listed

def inner : Scope → List (Entry × Scope)
  | .empty => []
  | .entry e members rest => (e, members) :: members.inner ++ rest.inner

end Scope

namespace Catalog

def assignment (c : Catalog) (e : Entry) : Assignment :=
  ⟨e.path, e.slot, e.offset, e.space.bytes, c.signature e.ty, e.ty.role⟩

end Catalog

end ContractRegistry
