import ContractRegistry.Json.Value

/-!
The events of a contract interface.
-/
namespace ContractRegistry.Event

open Json (Value)

structure Entry where
  kind : Option String
  name : Option String
deriving DecidableEq, Repr

def optionalText? : Option Value → Option (Option String)
  | none => some none
  | some .null => some none
  | some (.string text) => some (some text)
  | some _ => none

namespace Entry

def of? (kind name : Option Value) : Option Entry := do
  some ⟨← optionalText? kind, ← optionalText? name⟩

def ofValue? : Value → Option Entry
  | .object members => of? (members.lookup "type") (members.lookup "name")
  | .array [] => of? none none
  | .array [kind] => of? (some kind) none
  | .array [kind, name] => of? (some kind) (some name)
  | _ => none

def eventName? (e : Entry) : Option String :=
  if e.kind = some "event" then e.name.filter fun name => name ≠ "" else none

end Entry

/-- The names of the events of an interface, in order. An overloaded event is named once for each of
its entries. -/
def names (interface : Value) : List String :=
  match interface with
  | .array entries => entries.filterMap fun v => (Entry.ofValue? v).bind Entry.eventName?
  | _ => []

end ContractRegistry.Event
