import ContractRegistry.Failure
import ContractRegistry.TypeRef

/-!
The types that one source declares: structs in the order of registration, and further names that
stand for built-in types (enums, value types, contracts). Each name is registered once.
-/
namespace ContractRegistry

inductive CatalogError where
  | duplicateStruct (name : String)
  | duplicateType (name : String)
  | unknownFieldType (owner : String) (field : String) (ty : String)
  | unknownType (name : String)
  | cyclicStruct (path : List String)
deriving DecidableEq, Repr

def ticked (name : String) : String :=
  "`" ++ name ++ "`"

namespace CatalogError

def message : CatalogError → String
  | .duplicateStruct name => "duplicate struct definition " ++ ticked name
  | .duplicateType name => "duplicate type name " ++ ticked name
  | .unknownFieldType owner field ty =>
    "struct " ++ ticked owner ++ " field " ++ ticked field ++ " has unknown type " ++ ticked ty
  | .unknownType name => "unknown type " ++ ticked name
  | .cyclicStruct path =>
    "struct " ++ ticked (path.headD "") ++ " contains itself: " ++ " -> ".intercalate path

end CatalogError

structure Catalog where
  structs : List StructDef
  aliases : List (String × Elementary)
deriving Repr, Inhabited

namespace Catalog

def empty : Catalog := ⟨[], []⟩

def struct? (c : Catalog) (name : String) : Option StructDef :=
  c.structs.find? fun d => d.name = name

def hasStruct (c : Catalog) (name : String) : Bool :=
  (c.struct? name).isSome

def alias? (c : Catalog) (name : String) : Option Elementary :=
  c.aliases.lookup name

def contains (c : Catalog) (name : String) : Bool :=
  c.hasStruct name || (c.alias? name).isSome

/-- Registers a struct. Its members may name structs that come later. -/
def registerStruct (c : Catalog) (d : StructDef) : Except CatalogError Catalog :=
  if c.hasStruct d.name then .error (.duplicateStruct d.name)
  else if (c.alias? d.name).isSome then .error (.duplicateType d.name)
  else .ok { c with structs := c.structs ++ [d] }

def registerAlias (c : Catalog) (name : String) (kind : Elementary) :
    Except CatalogError Catalog :=
  if c.contains name then .error (.duplicateType name)
  else .ok { c with aliases := c.aliases ++ [(name, kind)] }

/-- Widens `bytes` while the last member does not fit in it, up to 32. -/
def widen (last : Nat) : Nat → Nat → Nat
  | 0, bytes => bytes
  | room + 1, bytes => if last >>> (8 * bytes) = 0 then bytes else widen last room (bytes + 1)

def enumBytes (members : Nat) : Nat :=
  widen (members - 1) 31 1

def enumLimit : Nat := 0x100000000000000

/-- Registers an enum. It is stored as an unsigned integer. The number of its members is a machine word,
and for more of them than fit in seven bytes it would have to be shifted by all its bits. -/
def registerEnum (c : Catalog) (name : String) (members : Nat) :
    Except (Failure CatalogError) Catalog :=
  if enumLimit < members then .error (.panic .shift)
  else Failure.tell (c.registerAlias name (.uint (8 * enumBytes members)))

/-- The built-in type of a name. The names of the language come before registered ones. -/
def elementary? (c : Catalog) (name : String) : Option Elementary :=
  (Elementary.ofName? name).or (c.alias? name)

def resolve (c : Catalog) (name : String) : Except CatalogError TypeRef :=
  match c.elementary? name with
  | some kind => .ok (.elementary kind)
  | none => if c.hasStruct name then .ok (.struct name) else .error (.unknownType name)

def fieldType (c : Catalog) (name : String) : TypeRef :=
  match c.elementary? name with
  | some kind => .elementary kind
  | none => .struct name

def missing? (c : Catalog) (ty : TypeRef) : Option String :=
  ty.referenced.find? fun name => !c.hasStruct name

def check (c : Catalog) (ty : TypeRef) : Except CatalogError Unit :=
  match c.missing? ty with
  | some name => .error (.unknownType name)
  | none => .ok ()

def checkFields (c : Catalog) (owner : String) : List Field → Except CatalogError Unit
  | [] => .ok ()
  | f :: fs =>
    match c.missing? f.ty with
    | some name => .error (.unknownFieldType owner f.name name)
    | none => c.checkFields owner fs

def checkStructs (c : Catalog) : List StructDef → Except CatalogError Unit
  | [] => .ok ()
  | d :: ds => do
    c.checkFields d.name d.fields
    c.checkStructs ds

end Catalog

end ContractRegistry
