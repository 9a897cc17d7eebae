import ContractRegistry.Address
import ContractRegistry.Event
import ContractRegistry.Failure
import ContractRegistry.Layout.Assignment

/-!
The store of onboarded contracts and of the names of their events.

Contracts and event names are numbered from one in the order in which they come. A contract is stored
once for each address, and an event name keeps its number.
-/
namespace ContractRegistry

/-- All that is kept of a contract. The numbers of its events stand in the order of its interface. -/
structure Contract where
  address : Address
  name : String
  interface : Json.Value
  layout : Layout
  events : List Nat
deriving Repr, Inhabited

inductive StoreError where
  | duplicateContract (address : Address)
  | io (reason : String)
  | snapshot (reason : String)
  | unavailable (reason : String)
deriving DecidableEq, Repr

namespace StoreError

def message : StoreError → String
  | .duplicateContract address => "contract " ++ address.checksummed ++ " is already onboarded"
  | .io reason => "storage I/O failed: " ++ reason
  | .snapshot reason => "invalid store snapshot: " ++ reason
  | .unavailable reason => "store unavailable: " ++ reason

def isTransient : StoreError → Bool
  | .io _ => true
  | .unavailable _ => true
  | _ => false

end StoreError

abbrev StoreResult := Except (Failure StoreError)

/-- Contracts by number and event names with their numbers, both sorted, and the numbers last given. -/
structure Store where
  lastContract : Nat
  lastEvent : Nat
  events : List (String × Nat)
  contracts : List (Nat × Contract)
deriving Repr, Inhabited

namespace Store

def empty : Store := ⟨0, 0, [], []⟩

def next (last : Nat) : StoreResult Nat :=
  if last + 1 < Numeral.limit64 then .ok (last + 1) else .error (.panic .addition)

/-- The number of an event name. A new name gets the next one. -/
def eventId (s : Store) (name : String) : StoreResult (Nat × Store) :=
  match s.events.lookup name with
  | some id => .ok (id, s)
  | none => do
    let id ← next s.lastEvent
    .ok (id, { s with lastEvent := id, events := Json.insertMember name id s.events })

def eventIds (s : Store) : List String → StoreResult (List Nat × Store)
  | [] => .ok ([], s)
  | name :: names => do
    let (id, s) ← s.eventId name
    let (ids, s) ← s.eventIds names
    .ok (id :: ids, s)

def place (id : Nat) (contract : Contract) : List (Nat × Contract) → List (Nat × Contract)
  | [] => [(id, contract)]
  | (other, c) :: rest =>
    if id < other then (id, contract) :: (other, c) :: rest
    else if other < id then (other, c) :: place id contract rest
    else (id, contract) :: rest

def hasAddress (s : Store) (address : Address) : Bool :=
  s.contracts.any fun entry => entry.2.address = address

def insert (s : Store) (contract : Contract) : StoreResult (Nat × Store) :=
  if s.hasAddress contract.address then .error (.told (.duplicateContract contract.address))
  else do
    let id ← next s.lastContract
    .ok (id, { s with lastContract := id, contracts := place id contract s.contracts })

def contract? (s : Store) (id : Nat) : Option Contract :=
  s.contracts.lookup id

end Store

end ContractRegistry
