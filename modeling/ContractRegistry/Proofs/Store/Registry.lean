import ContractRegistry.Proofs.Onboarding.Batches
import Mathlib.Data.List.Induction
import Mathlib.Data.List.Nodup

/-!
A registry of contracts and event names, and the store that keeps it.

A registry is two lists without repetition. What is new goes to the end of its list, and the place in the
list is the number. The counters and the sorted tables of a store are all read off the two lists.
-/
namespace ContractRegistry

structure Server (σ : Type) where
  eventId : String → StateM σ (StoreResult Nat)
  insert : Contract → StateM σ (StoreResult Nat)
  contract : Nat → StateM σ (Option Contract)

def Store.server : Server Store where
  eventId name := Command.onStore fun s => s.eventId name
  insert c := Command.onStore fun s => s.insert c
  contract id := fun s => (s.contract? id, s)

/-- Contracts in the order in which they came, no two of one address, and names of events in the order in
which they were first asked for. -/
structure Registry where
  contracts : List Contract
  names : List String
  apart : (contracts.map Contract.address).Nodup
  distinct : names.Nodup

namespace Registry

def empty : Registry := ⟨[], [], .nil, .nil⟩

def Lists (r : Registry) (address : Address) : Prop :=
  address ∈ r.contracts.map Contract.address

instance (r : Registry) (address : Address) : Decidable (r.Lists address) :=
  inferInstanceAs (Decidable (address ∈ r.contracts.map Contract.address))

def withContract (r : Registry) (c : Contract) (new : ¬ r.Lists c.address) : Registry where
  contracts := r.contracts ++ [c]
  names := r.names
  apart := by
    rw [List.map_append, List.map_singleton, ← List.concat_eq_append]
    exact List.Nodup.concat new r.apart
  distinct := r.distinct

def withName (r : Registry) (name : String) (new : name ∉ r.names) : Registry where
  contracts := r.contracts
  names := r.names ++ [name]
  apart := r.apart
  distinct := by
    rw [← List.concat_eq_append]
    exact List.Nodup.concat new r.distinct

/-- The place of a name. A new one is put at the end. -/
def eventId (name : String) (r : Registry) : StoreResult Nat × Registry :=
  if listed : name ∈ r.names then (.ok (r.names.idxOf name + 1), r)
  else if r.names.length + 1 < Numeral.limit64 then (.ok (r.names.length + 1), r.withName name listed)
  else (.error (.panic .addition), r)

def insert (c : Contract) (r : Registry) : StoreResult Nat × Registry :=
  if listed : r.Lists c.address then (.error (.told (.duplicateContract c.address)), r)
  else if r.contracts.length + 1 < Numeral.limit64 then
    (.ok (r.contracts.length + 1), r.withContract c listed)
  else (.error (.panic .addition), r)

def contract? (r : Registry) : Nat → Option Contract
  | 0 => none
  | k + 1 => r.contracts[k]?

def server : Server Registry where
  eventId := eventId
  insert := insert
  contract id := fun r => (r.contract? id, r)

def NumberOf (r : Registry) (name : String) (id : Nat) : Prop :=
  ∃ k, r.names[k]? = some name ∧ id = k + 1

structure Within (r q : Registry) : Prop where
  contracts : r.contracts <+: q.contracts
  names : r.names <+: q.names

variable {r q p : Registry}

theorem Within.refl (r : Registry) : r.Within r :=
  ⟨List.prefix_refl _, List.prefix_refl _⟩

theorem Within.trans (first : r.Within q) (second : q.Within p) : r.Within p :=
  ⟨first.contracts.trans second.contracts, first.names.trans second.names⟩

theorem getElem?_of_prefix {α : Type} {xs ys : List α} (begun : xs <+: ys) {k : Nat} {x : α}
    (there : xs[k]? = some x) : ys[k]? = some x := by
  obtain ⟨more, rfl⟩ := begun
  obtain ⟨small, -⟩ := List.getElem?_eq_some_iff.mp there
  rw [List.getElem?_append_left small, there]

theorem Within.contract?_eq (grown : r.Within q) {id : Nat} {c : Contract}
    (there : r.contract? id = some c) : q.contract? id = some c := by
  cases id with
  | zero => contradiction
  | succ k => exact getElem?_of_prefix grown.contracts there

theorem Within.lists (grown : r.Within q) {address : Address} (listed : r.Lists address) :
    q.Lists address := by
  obtain ⟨more, parts⟩ := grown.contracts
  unfold Lists at listed ⊢
  rw [← parts, List.map_append]
  exact List.mem_append_left _ listed

theorem NumberOf.within {name : String} {id : Nat} (number : r.NumberOf name id) (grown : r.Within q) :
    q.NumberOf name id := by
  obtain ⟨k, there, same⟩ := number
  exact ⟨k, getElem?_of_prefix grown.names there, same⟩

theorem NumberOf.eq_iff {first second : String} {i j : Nat} (one : r.NumberOf first i)
    (other : r.NumberOf second j) : i = j ↔ first = second := by
  obtain ⟨k, here, rfl⟩ := one
  obtain ⟨l, there, rfl⟩ := other
  constructor
  · intro same
    obtain rfl : k = l := by omega
    exact Option.some.inj (here.symm.trans there)
  · rintro rfl
    obtain ⟨small, -⟩ := List.getElem?_eq_some_iff.mp here
    rw [(List.getElem?_inj small r.distinct).mp (here.trans there.symm)]

theorem within_eventId (name : String) (r : Registry) : r.Within (r.eventId name).2 := by
  unfold eventId
  split
  · exact .refl r
  split
  · exact ⟨List.prefix_refl _, List.prefix_append _ _⟩
  · exact .refl r

theorem within_insert (c : Contract) (r : Registry) : r.Within (r.insert c).2 := by
  unfold insert
  split
  · exact .refl r
  split
  · exact ⟨List.prefix_append _ _, List.prefix_refl _⟩
  · exact .refl r

def numbered (names : List String) : List (String × Nat) :=
  names.zip (List.range' 1 names.length)

def store (r : Registry) : Store where
  lastContract := r.contracts.length
  lastEvent := r.names.length
  events := Json.sortMembers (numbered r.names)
  contracts := (List.range' 1 r.contracts.length).zip r.contracts

end Registry

end ContractRegistry
