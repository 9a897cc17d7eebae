import ContractRegistry.Catalog

/-!
Why declarations have no layout.
-/
namespace ContractRegistry

/-- A declaration that has no layout. Paths name a variable or a member of it. -/
inductive LayoutError where
  | catalog (cause : CatalogError)
  | emptyStruct (name : String)
  | zeroLengthArray (path : String)
  | invalidMappingKey (path : String) (key : String)
  /-- A slot number would not fit in 64 bits. -/
  | overflow (path : String)
deriving DecidableEq, Repr

namespace LayoutError

def message : LayoutError → String
  | .catalog cause => cause.message
  | .emptyStruct name => "struct " ++ ticked name ++ " has no fields"
  | .zeroLengthArray path => ticked path ++ " declares a fixed array of length zero"
  | .invalidMappingKey path key => ticked path ++ " uses " ++ ticked key ++ " as a mapping key"
  | .overflow path => ticked path ++ " does not fit in storage"

end LayoutError

abbrev LayoutResult := Except (Failure LayoutError)

end ContractRegistry
