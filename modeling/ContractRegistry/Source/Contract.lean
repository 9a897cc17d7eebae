import ContractRegistry.Source.Inheritance
import ContractRegistry.Source.Length
import ContractRegistry.Source.Parser

/-!
The storage of one contract of a source: its types and its variables, inherited ones first.
-/
namespace ContractRegistry.Source

open Failure (tell)

/-- What a source says about the storage of a contract. Variables stand in the order in which they
are stored. -/
structure ContractSource where
  contract : String
  catalog : Catalog
  declarations : List Declaration
deriving Repr, Inhabited

/-- Puts declarations behind those that are told already. The number of a declaration is how many are
told before it. -/
def number : List (Nat × Declaration) → List Declaration → List (Nat × Declaration)
  | told, [] => told
  | told, d :: ds => number (told ++ [(told.length, d)]) ds

def ContractSource.numbered (s : ContractSource) : List (Nat × Declaration) :=
  number [] s.declarations

def orRefuse : Except CatalogError α → Parsed α
  | .ok a => .ok a
  | .error cause => .error (.catalog cause)

def describeAll (ts : List Token) : String :=
  " ".intercalate (ts.map fun t => t.kind.describe)

/-- The bytes of a function value: the address and the selector of an external function, a place in
the code for any other. -/
def functionBytes (external : Bool) : Nat :=
  if external then 24 else 8

/-- The type that is written. A name that is not known is one of a struct to come. -/
def TypeExpr.resolve (catalog : Catalog) (constants : Constants) : TypeExpr → Parsed TypeRef
  | .named name _ => .ok (catalog.fieldType name)
  | .function external => .ok (.elementary (.fixedBytes (functionBytes external)))
  | .mapping key value => do
    let key ← key.resolve catalog constants
    let value ← value.resolve catalog constants
    .ok (.mapping key value)
  | .array element none _ => do
    let element ← element.resolve catalog constants
    .ok (.dynamicArray element)
  | .array element (some ts) line =>
    match constants.length? ts with
    | none => .error (.invalidArrayLength line (describeAll ts))
    | some length => do
      let element ← element.resolve catalog constants
      .ok (.fixedArray element length)

namespace SourceUnit

def constantOf? (v : VariableItem) : Option (String × List Token) :=
  if v.mutability = .constant then v.init.map fun ts => (v.name, ts) else none

def constantTable (u : SourceUnit) : Constants :=
  (u.constants ++ u.contracts.flatMap ContractItem.declared).filterMap constantOf?

/-- Registers the names of contracts. A variable of such a type holds an address. -/
def registerContracts : Catalog → List ContractItem → Except CatalogError Catalog
  | catalog, [] => .ok catalog
  | catalog, c :: cs => do
    let catalog ← catalog.registerAlias c.name .address
    registerContracts catalog cs

def registerEnums : Catalog → List EnumItem → Except (Failure CatalogError) Catalog
  | catalog, [] => .ok catalog
  | catalog, e :: es => do
    let catalog ← catalog.registerEnum e.name e.members
    registerEnums catalog es

def registerValueTypes : Catalog → List ValueTypeItem → Except CatalogError Catalog
  | catalog, [] => .ok catalog
  | catalog, v :: vs =>
    match Elementary.ofName? v.underlying with
    | none => .error (.unknownType v.underlying)
    | some kind => do
      let catalog ← catalog.registerAlias v.name kind
      registerValueTypes catalog vs

def resolveFields (catalog : Catalog) (constants : Constants) :
    List (String × TypeExpr) → Parsed (List Field)
  | [] => .ok []
  | (name, ty) :: rest => do
    let ty ← ty.resolve catalog constants
    let fields ← resolveFields catalog constants rest
    .ok (⟨name, ty⟩ :: fields)

/-- Registers structs. One that is there already with the same members is left out: sources that are
put together repeat files. -/
def registerStructs (constants : Constants) : Catalog → List StructItem → Parsed Catalog
  | catalog, [] => .ok catalog
  | catalog, s :: ss => do
    let fields ← resolveFields catalog constants s.fields
    if catalog.struct? s.name = some ⟨s.name, fields⟩ then registerStructs constants catalog ss
    else
      let catalog ← orRefuse (catalog.registerStruct ⟨s.name, fields⟩)
      registerStructs constants catalog ss

def catalog (u : SourceUnit) : Except (Failure SourceError) Catalog := do
  let catalog ← tell (orRefuse (registerContracts .empty u.contracts))
  let catalog ← (registerEnums catalog u.enums).mapError (.map .catalog)
  let catalog ← tell (orRefuse (registerValueTypes catalog u.valueTypes))
  tell (registerStructs u.constantTable catalog u.structs)

/-- The contract to lay out: the one that is asked for, or else the last that can be deployed. -/
def target (u : SourceUnit) : Option String → Parsed ContractItem
  | some name =>
    match u.contract? name with
    | some c => .ok c
    | none => .error (.contractNotFound name)
  | none =>
    match u.contracts.reverse.find? fun c => c.kind = .plain with
    | some c => .ok c
    | none => .error .noContract

def resolveVariables (catalog : Catalog) (constants : Constants) :
    List VariableItem → Parsed (List Declaration)
  | [] => .ok []
  | v :: vs => do
    let ty ← v.ty.resolve catalog constants
    let rest ← resolveVariables catalog constants vs
    .ok (⟨v.name, ty, v.visibility, v.mutability⟩ :: rest)

def variablesOf (u : SourceUnit) (name : String) : List VariableItem :=
  match u.contract? name with
  | some c => c.declared
  | none => []

def select (u : SourceUnit) (name : Option String) : Except (Failure SourceError) ContractSource := do
  let catalog ← u.catalog
  let contract ← tell (u.target name)
  let order ← tell (u.inheritance contract)
  let declarations ← tell (resolveVariables catalog u.constantTable
    (order.reverse.flatMap u.variablesOf))
  let _ ← tell (orRefuse catalog.validate)
  .ok ⟨contract.name, catalog, declarations⟩

end SourceUnit

def ContractSource.ofText (source : String) (name : Option String) :
    Except (Failure SourceError) ContractSource := do
  let ts ← tell (tokenize source.toList)
  let u ← tell (SourceUnit.ofTokens ts)
  u.select name

end ContractRegistry.Source
