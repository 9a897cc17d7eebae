import ContractRegistry.Layout.Error
import ContractRegistry.Numeral

/-!
The cursor that allots storage: the next slot and the bytes of it that are taken.

Values pack: one goes behind the last if the slot has room for it, else into the next slot. Everything
else takes whole slots, and what follows it begins a slot. Slot numbers have 64 bits.
-/
namespace ContractRegistry

inductive Footprint where
  /-- A value of so many bytes that shares its slot. -/
  | packed (size : Nat)
  /-- So many whole slots. -/
  | slots (count : Nat)
deriving DecidableEq, Repr

/-- The next slot, counted from where the scope begins, and the bytes of it that are taken. -/
structure Cursor where
  slot : Nat
  offset : Nat
deriving DecidableEq, Repr

namespace Cursor

def start : Cursor := ⟨0, 0⟩

def slotNumber? (n : Nat) : Option Nat :=
  if n < Numeral.limit64 then some n else none

/-- The cursor at the beginning of the next slot. -/
def nextSlot (c : Cursor) : LayoutResult Cursor :=
  match slotNumber? (c.slot + 1) with
  | some slot => .ok ⟨slot, 0⟩
  | none => .error (.panic .addition)

def seat (c : Cursor) (size : Nat) : LayoutResult Cursor :=
  if slotBytes < c.offset + size then c.nextSlot else .ok c

def freshSlot (c : Cursor) : LayoutResult Cursor :=
  if c.offset = 0 then .ok c else c.nextSlot

def slotsUsed (c : Cursor) : LayoutResult Nat := do
  let fresh ← c.freshSlot
  .ok fresh.slot

/-- Allots space for a type: where it begins, and the cursor behind it. The path is for the error
that the space does not fit in storage. -/
def allot (c : Cursor) (path : String) : Footprint → LayoutResult (Cursor × Cursor)
  | .packed size => do
    let place ← c.seat size
    .ok (place, ⟨place.slot, place.offset + size⟩)
  | .slots count => do
    let place ← c.freshSlot
    match slotNumber? (place.slot + count) with
    | some slot => .ok (place, ⟨slot, 0⟩)
    | none => .error (.told (.overflow path))

end Cursor

end ContractRegistry
