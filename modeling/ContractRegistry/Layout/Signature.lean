import ContractRegistry.Catalog

/-!
Signatures: the shape of a type as text.

A struct is written as the tuple of its members. A struct that is met again inside its own tuple, by
way of a mapping or a dynamic array, is written by name, as is one that is not registered.
-/
namespace ContractRegistry

def TypeRef.text (struct : String → String) : TypeRef → String
  | .elementary kind => kind.name
  | .fixedArray element length => element.text struct ++ "[" ++ toString length ++ "]"
  | .dynamicArray element => element.text struct ++ "[]"
  | .mapping key value => "mapping(" ++ key.text struct ++ "=>" ++ value.text struct ++ ")"
  | .struct name => struct name

def structByName (name : String) : String :=
  "struct " ++ name

namespace Catalog

/-- The text of a struct inside the tuples of the structs in `opened`. Only registered structs are
opened, each once, so `depth` tuples are enough when there are that many structs. -/
def structText (c : Catalog) : Nat → List String → String → String
  | 0, _, name => structByName name
  | depth + 1, opened, name =>
    match c.struct? name with
    | some d =>
      if name ∈ opened then structByName name
      else
        "(" ++ ",".intercalate
          (d.fields.map fun f => f.ty.text (c.structText depth (name :: opened))) ++ ")"
    | none => structByName name

def signature (c : Catalog) (ty : TypeRef) : String :=
  ty.text (c.structText c.structs.length [])

end Catalog

end ContractRegistry
