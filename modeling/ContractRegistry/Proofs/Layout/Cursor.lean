import ContractRegistry.Layout.Scope
import ContractRegistry.Proofs.Outcome

/-!
What allotting space does to a cursor.

A cursor stands for the number of bytes before it. Every allotment begins there or, when it needs a new
slot, at the beginning of the next one, and ends as many bytes further as the space has.
-/
namespace ContractRegistry

namespace Footprint

def extent : Footprint → Nat
  | .packed size => size
  | .slots count => count * slotBytes

def slotsTaken : Footprint → Nat
  | .packed _ => 1
  | .slots count => count

def Sized : Footprint → Prop
  | .packed size => 1 ≤ size ∧ size ≤ slotBytes
  | .slots _ => True

theorem bytes_le_extent (space : Footprint) : space.bytes ≤ space.extent := by
  cases space with
  | packed size => exact Nat.le_refl _
  | slots count => exact Nat.min_le_left _ _

theorem bytes_eq_extent {space : Footprint} (told : space.bytes ≠ largestSize) :
    space.bytes = space.extent := by
  cases space with
  | packed size => rfl
  | slots count =>
    simp only [bytes, extent] at told ⊢
    omega

end Footprint

namespace Cursor

def position (c : Cursor) : Nat :=
  c.slot * slotBytes + c.offset

@[simp] theorem position_start : Cursor.start.position = 0 := rfl

def fresh (c : Cursor) : Nat :=
  if c.offset = 0 then c.slot else c.slot + 1

theorem slotNumber?_eq_some {n slot : Nat} :
    slotNumber? n = some slot ↔ n < Numeral.limit64 ∧ n = slot := by
  unfold slotNumber?
  split
  · rename_i fits
    simp [fits]
  · rename_i large
    simp [large]

theorem nextSlot_eq {c next : Cursor} (run : c.nextSlot = .ok next) : next = ⟨c.slot + 1, 0⟩ := by
  unfold nextSlot at run
  split at run
  · rename_i slot fits
    rw [← (slotNumber?_eq_some.mp fits).2] at run
    exact (Except.ok.inj run).symm
  · simp at run

theorem freshSlot_eq {c place : Cursor} (run : c.freshSlot = .ok place) :
    place = if c.offset = 0 then c else ⟨c.slot + 1, 0⟩ := by
  unfold freshSlot at run
  split at run
  · rename_i empty
    rw [if_pos empty]
    exact (Except.ok.inj run).symm
  · rename_i taken
    rw [if_neg taken]
    exact nextSlot_eq run

theorem seat_eq {c place : Cursor} {size : Nat} (run : c.seat size = .ok place) :
    place = if slotBytes < c.offset + size then ⟨c.slot + 1, 0⟩ else c := by
  unfold seat at run
  split at run
  · rename_i full
    rw [if_pos full]
    exact nextSlot_eq run
  · rename_i room
    rw [if_neg room]
    exact (Except.ok.inj run).symm

theorem slotsUsed_eq {c : Cursor} {used : Nat} (run : c.slotsUsed = .ok used) :
    used = if c.offset = 0 then c.slot else c.slot + 1 := by
  obtain ⟨fresh, found, eq⟩ := bind_eq_ok.mp run
  rw [← Except.ok.inj eq, freshSlot_eq found]
  split <;> rfl

theorem slotsUsed_fresh {c : Cursor} {used : Nat} (run : c.slotsUsed = .ok used) : used = c.fresh :=
  slotsUsed_eq run

theorem allot_packed {c place next : Cursor} {path : String} {size : Nat}
    (run : c.allot path (.packed size) = .ok (place, next)) :
    place = (if slotBytes < c.offset + size then ⟨c.slot + 1, 0⟩ else c) ∧
      next = ⟨place.slot, place.offset + size⟩ := by
  obtain ⟨seat, found, eq⟩ := bind_eq_ok.mp run
  obtain ⟨rfl, rfl⟩ := Prod.mk.inj (Except.ok.inj eq)
  exact ⟨seat_eq found, rfl⟩

theorem allot_slots {c place next : Cursor} {path : String} {count : Nat}
    (run : c.allot path (.slots count) = .ok (place, next)) :
    place = (if c.offset = 0 then c else ⟨c.slot + 1, 0⟩) ∧ next = ⟨place.slot + count, 0⟩ := by
  obtain ⟨fresh, found, eq⟩ := bind_eq_ok.mp run
  split at eq
  · rename_i slot fits
    obtain ⟨rfl, rfl⟩ := Prod.mk.inj (Except.ok.inj eq)
    rw [(slotNumber?_eq_some.mp fits).2]
    exact ⟨freshSlot_eq found, rfl⟩
  · simp at eq

theorem allot_slots_fresh {c place next : Cursor} {path : String} {count : Nat}
    (run : c.allot path (.slots count) = .ok (place, next)) :
    place = ⟨c.fresh, 0⟩ ∧ next = ⟨c.fresh + count, 0⟩ := by
  obtain ⟨begins, ends⟩ := allot_slots run
  have place_eq : place = ⟨c.fresh, 0⟩ := by
    obtain ⟨slot, offset⟩ := c
    rw [begins, fresh]
    split
    · rename_i empty
      simp_all
    · rfl
  rw [place_eq] at ends
  exact ⟨place_eq, ends⟩

theorem allot_slot_le {c place next : Cursor} {path : String} {space : Footprint}
    (run : c.allot path space = .ok (place, next)) : c.slot ≤ place.slot ∧ place.slot ≤ next.slot := by
  cases space with
  | packed size =>
    obtain ⟨rfl, rfl⟩ := allot_packed run
    split <;> simp
  | slots count =>
    obtain ⟨rfl, rfl⟩ := allot_slots run
    split <;> simp

theorem nextSlot_slot_lt {c next : Cursor} (run : c.nextSlot = .ok next) :
    next.slot < Numeral.limit64 := by
  unfold nextSlot at run
  split at run
  · rename_i slot fits
    obtain ⟨small, rfl⟩ := slotNumber?_eq_some.mp fits
    rw [← Except.ok.inj run]
    exact small
  · contradiction

theorem freshSlot_slot_lt {c place : Cursor} (small : c.slot < Numeral.limit64)
    (run : c.freshSlot = .ok place) : place.slot < Numeral.limit64 := by
  unfold freshSlot at run
  split at run
  · rw [← Except.ok.inj run]
    exact small
  · exact nextSlot_slot_lt run

theorem allot_slot_lt {c place next : Cursor} {path : String} {space : Footprint}
    (small : c.slot < Numeral.limit64) (run : c.allot path space = .ok (place, next)) :
    next.slot < Numeral.limit64 := by
  cases space with
  | packed size =>
    obtain ⟨seat, found, eq⟩ := bind_eq_ok.mp run
    obtain ⟨rfl, rfl⟩ := Prod.mk.inj (Except.ok.inj eq)
    simp only
    unfold Cursor.seat at found
    split at found
    · exact nextSlot_slot_lt found
    · rw [← Except.ok.inj found]
      exact small
  | slots count =>
    obtain ⟨fresh, found, eq⟩ := bind_eq_ok.mp run
    split at eq
    · rename_i slot fits
      obtain ⟨rfl, rfl⟩ := Prod.mk.inj (Except.ok.inj eq)
      obtain ⟨small, rfl⟩ := slotNumber?_eq_some.mp fits
      exact small
    · contradiction

theorem slot_le_slotsUsed {c : Cursor} {used : Nat} (run : c.slotsUsed = .ok used) : c.slot ≤ used := by
  rw [slotsUsed_eq run]
  split <;> omega

theorem allot_any_path {c : Cursor} {path : String} {space : Footprint} {places : Cursor × Cursor}
    (run : c.allot path space = .ok places) (other : String) : c.allot other space = .ok places := by
  cases space with
  | packed size => exact run
  | slots count =>
    obtain ⟨fresh, found, eq⟩ := bind_eq_ok.mp run
    refine bind_eq_ok.mpr ⟨fresh, found, ?_⟩
    split at eq
    · exact eq
    · simp at eq

/-- Space is allotted behind what is taken, and nothing is left out between the beginning of an
allotment and the cursor behind it. -/
theorem allot_position {c place next : Cursor} {path : String} {space : Footprint}
    (within : c.offset ≤ slotBytes) (run : c.allot path space = .ok (place, next)) :
    c.position ≤ place.position ∧ next.position = place.position + space.extent := by
  cases space with
  | packed size =>
    obtain ⟨rfl, rfl⟩ := allot_packed run
    split <;> simp only [position, Footprint.extent, Nat.add_mul] <;> omega
  | slots count =>
    obtain ⟨rfl, rfl⟩ := allot_slots run
    split <;> simp only [position, Footprint.extent, Nat.add_mul] <;> omega

theorem allot_in_slot {c place next : Cursor} {path : String} {space : Footprint}
    (sized : space.Sized) (run : c.allot path space = .ok (place, next)) :
    next.offset ≤ slotBytes := by
  cases space with
  | packed size =>
    obtain ⟨rfl, rfl⟩ := allot_packed run
    have := sized.2
    split <;> simp only <;> omega
  | slots count =>
    obtain ⟨rfl, rfl⟩ := allot_slots run
    exact Nat.zero_le _

theorem allot_start {place next : Cursor} {path : String} {space : Footprint} (sized : space.Sized)
    (run : Cursor.start.allot path space = .ok (place, next)) : place = .start := by
  cases space with
  | packed size =>
    have := sized.2
    rw [(allot_packed run).1, if_neg]
    simp only [start]
    omega
  | slots count => exact (allot_slots run).1

theorem allot_shared {c placeA placeB next last : Cursor} {pathA pathB : String} {m n : Nat}
    (first : c.allot pathA (.packed m) = .ok (placeA, next))
    (second : next.allot pathB (.packed n) = .ok (placeB, last))
    (room : placeA.offset + m + n ≤ slotBytes) : placeB = ⟨placeA.slot, placeA.offset + m⟩ := by
  rw [(allot_packed second).1, (allot_packed first).2, if_neg]
  simp only
  omega

/-- Everything else begins the first slot that is free: the one after the slot of a value, or after the
slots of what is no value. -/
theorem allot_fresh {c placeA placeB next last : Cursor} {pathA pathB : String} {a b : Footprint}
    (sizedA : a.Sized) (sizedB : b.Sized) (first : c.allot pathA a = .ok (placeA, next))
    (second : next.allot pathB b = .ok (placeB, last))
    (full : ∀ m n, a = .packed m → b = .packed n → slotBytes < placeA.offset + m + n) :
    placeB = ⟨placeA.slot + a.slotsTaken, 0⟩ := by
  cases a with
  | packed m =>
    have some_bytes := sizedA.1
    have stops := (allot_packed first).2
    cases b with
    | packed n =>
      have more := full m n rfl rfl
      rw [(allot_packed second).1, stops, if_pos (by simp only; omega)]
      rfl
    | slots count =>
      rw [(allot_slots second).1, stops, if_neg (by simp only; omega)]
      rfl
  | slots count =>
    have stops := (allot_slots first).2
    cases b with
    | packed n =>
      have short := sizedB.2
      rw [(allot_packed second).1, stops, if_neg (by simp only; omega)]
      rfl
    | slots more =>
      rw [(allot_slots second).1, stops, if_pos rfl]
      rfl

theorem position_le_slotsUsed {c : Cursor} {used : Nat} (within : c.offset ≤ slotBytes)
    (run : c.slotsUsed = .ok used) : c.position ≤ used * slotBytes := by
  rw [slotsUsed_eq run]
  split <;> simp only [position, Nat.add_mul] <;> omega

end Cursor

end ContractRegistry
