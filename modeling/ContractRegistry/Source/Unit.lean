import ContractRegistry.Layout.Placement
import ContractRegistry.Source.Token

/-!
What a source declares, as far as storage depends on it.
-/
namespace ContractRegistry.Source

/-- A type as it is written. Of a qualified name the last part is kept, and a length is kept as the
tokens between the brackets. -/
inductive TypeExpr where
  | named (name : String) (line : Nat)
  | mapping (key : TypeExpr) (value : TypeExpr)
  | array (element : TypeExpr) (length : Option (List Token)) (line : Nat)
  | function (external : Bool)
deriving Repr, Inhabited

structure StructItem where
  name : String
  fields : List (String × TypeExpr)
deriving Repr, Inhabited

structure EnumItem where
  name : String
  members : Nat
deriving DecidableEq, Repr, Inhabited

structure ValueTypeItem where
  name : String
  underlying : String
  line : Nat
deriving DecidableEq, Repr, Inhabited

/-- A variable. Its initial value is kept as tokens. -/
structure VariableItem where
  name : String
  ty : TypeExpr
  visibility : Option Visibility
  mutability : Mutability
  init : Option (List Token)
deriving Repr, Inhabited

/-- The kinds of contracts. Only plain ones can be deployed. -/
inductive ContractKind where
  | plain
  | abstract
  | interface
  | library
deriving DecidableEq, Repr, Inhabited

structure ContractItem where
  name : String
  kind : ContractKind
  bases : List String
  declared : List VariableItem
deriving Repr, Inhabited

/-- The declarations of a source, each kind in order. Types declared inside contracts are listed with
those outside. -/
structure SourceUnit where
  contracts : List ContractItem
  structs : List StructItem
  enums : List EnumItem
  valueTypes : List ValueTypeItem
  constants : List VariableItem
deriving Repr, Inhabited

namespace SourceUnit

def empty : SourceUnit := ⟨[], [], [], [], []⟩

def append (u v : SourceUnit) : SourceUnit :=
  ⟨u.contracts ++ v.contracts, u.structs ++ v.structs, u.enums ++ v.enums,
    u.valueTypes ++ v.valueTypes, u.constants ++ v.constants⟩

instance : Append SourceUnit := ⟨append⟩

def ofStruct (s : StructItem) : SourceUnit := { empty with structs := [s] }

def ofEnum (e : EnumItem) : SourceUnit := { empty with enums := [e] }

def ofValueType (v : ValueTypeItem) : SourceUnit := { empty with valueTypes := [v] }

def ofContract (c : ContractItem) : SourceUnit := { empty with contracts := [c] }

/-- A variable outside of contracts. Only constants may stand there. -/
def ofVariable (v : VariableItem) : SourceUnit :=
  if v.mutability = .constant then { empty with constants := [v] } else empty

end SourceUnit

end ContractRegistry.Source
