import ContractRegistry.Elementary
import ContractRegistry.Layout.ChildSlot

/-!
Assignments: where a variable or a member lives in storage.
-/
namespace ContractRegistry

inductive Role where
  /-- The value itself. -/
  | value
  /-- The base slot from which the places of the contents are hashed. -/
  | baseSlot
  /-- A struct; its members follow with places of their own. -/
  | composite
deriving DecidableEq, Repr, Inhabited

namespace Role

def name : Role → String
  | .value => "value"
  | .baseSlot => "base_slot"
  | .composite => "composite"

def ofName? : String → Option Role
  | "value" => some .value
  | "base_slot" => some .baseSlot
  | "composite" => some .composite
  | _ => none

def label : Role → String
  | .value => "value"
  | .baseSlot => "base"
  | .composite => "struct"

end Role

/-- A variable, or a member by its dotted path, and its place: the slot, the first byte in it counted
from the low end, and the number of bytes. -/
structure Assignment where
  name : String
  slot : Nat
  offset : Nat
  size : Nat
  signature : String
  role : Role
deriving DecidableEq, Repr, Inhabited

namespace Assignment

def key (a : Assignment) : Word :=
  ChildSlot.slotKey a.slot

def isMapping (a : Assignment) : Bool :=
  "mapping(".toList.isPrefixOf a.signature.toList

/-- Where the contents of a sequence begin. The entries of a mapping have no common beginning. -/
def dataSlot? (a : Assignment) : Option Word :=
  if a.role = .baseSlot ∧ a.isMapping = false then some (ChildSlot.arrayData a.key) else none

def slotSpan (a : Assignment) : Nat :=
  max 1 ((a.offset + a.size + slotBytes - 1) / slotBytes)

def firstByte (a : Assignment) : Nat :=
  a.slot * slotBytes + a.offset

def endByte (a : Assignment) : Nat :=
  a.firstByte + a.size

def overlaps (a b : Assignment) : Bool :=
  a.firstByte < b.endByte && b.firstByte < a.endByte

def location (a : Assignment) : String :=
  if a.role = .value ∧ a.size < slotBytes then
    toString a.slot ++ "[" ++ toString a.offset ++ ".." ++ toString (a.offset + a.size) ++ "]"
  else if 1 < a.slotSpan then
    toString a.slot ++ "..=" ++ toString (a.slot + a.slotSpan - 1)
  else toString a.slot

end Assignment

structure Layout where
  assignments : List Assignment
  slotsUsed : Nat
deriving DecidableEq, Repr, Inhabited

namespace Layout

def get? (l : Layout) (name : String) : Option Assignment :=
  l.assignments.find? fun a => a.name = name

end Layout

end ContractRegistry
