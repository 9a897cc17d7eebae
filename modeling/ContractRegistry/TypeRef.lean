import ContractRegistry.Elementary

/-!
Types as declarations refer to them.
-/
namespace ContractRegistry

/-- A reference to a type. A struct is referred to by its name. -/
inductive TypeRef where
  | elementary (kind : Elementary)
  | fixedArray (element : TypeRef) (length : Nat)
  | dynamicArray (element : TypeRef)
  | mapping (key : TypeRef) (value : TypeRef)
  | struct (name : String)
deriving DecidableEq, Repr, Inhabited

namespace TypeRef

def referenced : TypeRef → List String
  | .elementary _ => []
  | .fixedArray element _ => element.referenced
  | .dynamicArray element => element.referenced
  | .mapping key value => key.referenced ++ value.referenced
  | .struct name => [name]

/-- The structs whose members are stored inside the type. Mappings and dynamic arrays keep their
elements elsewhere. -/
def contained : TypeRef → List String
  | .fixedArray element _ => element.contained
  | .struct name => [name]
  | .elementary _ => []
  | .dynamicArray _ => []
  | .mapping _ _ => []

end TypeRef

structure Field where
  name : String
  ty : TypeRef
deriving DecidableEq, Repr, Inhabited

structure StructDef where
  name : String
  fields : List Field
deriving DecidableEq, Repr, Inhabited

namespace StructDef

def contained (d : StructDef) : List String :=
  d.fields.flatMap fun f => f.ty.contained

end StructDef

end ContractRegistry
