import ContractRegistry.Source.Unit

/-!
The order of a contract and its bases.

A contract comes before its bases. Bases are declared from the most basic to the most derived, so
they are merged from the last to the first. A merge takes the first head that is in no tail, as long
as there is one; it keeps the order inside each of the merged lists.
-/
namespace ContractRegistry.Source

namespace Inheritance

def inTail (name : String) : List String → Bool
  | [] => false
  | _ :: tail => tail.contains name

def nextHead? (lists : List (List String)) : Option String :=
  (lists.filterMap List.head?).find? fun name => !lists.any (inTail name)

def dropHead (name : String) : List String → List String
  | [] => []
  | head :: tail => if head = name then tail else head :: tail

/-- Merges lists. Each step takes a name from one at least, so the number of names is enough steps. -/
def merge? : Nat → List (List String) → Option (List String)
  | 0, lists => if lists.all List.isEmpty then some [] else none
  | steps + 1, lists =>
    if lists.all List.isEmpty then some []
    else do
      let head ← nextHead? lists
      let rest ← merge? steps (lists.map (dropHead head))
      some (head :: rest)

def nameCount (lists : List (List String)) : Nat :=
  lists.flatten.length

end Inheritance

namespace SourceUnit

def contract? (u : SourceUnit) (name : String) : Option ContractItem :=
  u.contracts.find? fun c => c.name = name

open Inheritance

def baseOrders (u : SourceUnit) (contract : String)
    (order : ContractItem → Except SourceError (List String)) :
    List String → Except SourceError (List (List String))
  | [] => .ok []
  | base :: bases =>
    match u.contract? base with
    | none => .error (.unknownBase contract base)
    | some c => do
      let first ← order c
      let rest ← u.baseOrders contract order bases
      .ok (first :: rest)

/-- A contract and its bases, the most derived first. A contract among its own bases, those in
`opened`, has no such order. Each contract is opened once at most, so their number bounds the depth. -/
def linearize (u : SourceUnit) : Nat → List String → ContractItem →
    Except SourceError (List String)
  | 0, _, c => .error (.inconsistentBases c.name)
  | depth + 1, opened, c =>
    if c.name ∈ opened then .error (.inconsistentBases c.name)
    else do
      let bases := c.bases.reverse
      let orders ← u.baseOrders c.name (u.linearize depth (c.name :: opened)) bases
      let lists := orders ++ [bases]
      match merge? (nameCount lists) lists with
      | some rest => .ok (c.name :: rest)
      | none => .error (.inconsistentBases c.name)

def inheritance (u : SourceUnit) (c : ContractItem) : Except SourceError (List String) :=
  u.linearize (u.contracts.length + 1) [] c

end SourceUnit

end ContractRegistry.Source
