import ContractRegistry.Catalog

/-!
Which struct contains which.

A depth-first walk visits the structs in the order of registration and finishes a struct after all
that it contains. The finished structs, in this order, are the *containment order*. A struct that is
met again while it is open contains itself, and the open structs from it on are the cycle.
-/
namespace ContractRegistry.Catalog

/-- The cycle that closes when `name` is met again under the open structs, innermost first. -/
def cycleThrough (name : String) (opened : List String) : List String :=
  name :: (opened.takeWhile fun other => other ≠ name).reverse ++ [name]

/-- Finishes a struct and all that it contains. `opened` holds the structs around it, innermost
first, and `done` those finished before it, last first. No more structs than there are can be open,
so their number bounds the depth of the walk. -/
def visit (c : Catalog) : Nat → List String → List String → String →
    Except CatalogError (List String)
  | 0, _, done, _ => .ok done
  | depth + 1, opened, done, name =>
    if name ∈ done then .ok done
    else if name ∈ opened then .error (.cyclicStruct (cycleThrough name opened))
    else
      match c.struct? name with
      | none => .ok done
      | some d => do
        let done ← d.contained.foldlM (fun done child => c.visit depth (name :: opened) done child) done
        .ok (name :: done)

def containmentOrder (c : Catalog) : Except CatalogError (List String) := do
  let done ← c.structs.foldlM (fun done d => c.visit (c.structs.length + 1) [] done d.name) []
  .ok done.reverse

/-- Checks a catalog as a whole, and gives the order of containment: the types of all members are
known, and no struct contains itself. -/
def validate (c : Catalog) : Except CatalogError (List String) := do
  c.checkStructs c.structs
  c.containmentOrder

end ContractRegistry.Catalog
