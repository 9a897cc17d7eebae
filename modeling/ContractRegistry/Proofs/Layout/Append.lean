import ContractRegistry.Proofs.Layout.Placed

/-!
Declarations that are put behind others do not move them.

The first declarations are placed before the others are looked at, and the sizes of structs do not depend
on either. The slots that they use can be counted whenever those of all can: what is placed behind them
begins in a slot that they leave open, or has taken the step to the next slot already.
-/
namespace ContractRegistry

/-- A layout begins another: its assignments are the first of the other, and it uses no more slots. -/
structure Layout.Begins (first whole : Layout) : Prop where
  assignments : first.assignments <+: whole.assignments
  slotsUsed : first.slotsUsed ≤ whole.slotsUsed

namespace Scope

def append : Scope → Scope → Scope
  | .empty, behind => behind
  | .entry e members rest, behind => .entry e members (rest.append behind)

theorem listed_append (first behind : Scope) : (first.append behind).listed = first.listed ++ behind.listed := by
  induction first with
  | empty => rfl
  | entry e members rest _ ih => simp [append, listed, ih]

end Scope

namespace Cursor

theorem slotsUsed_of_freshSlot {c fresh : Cursor} (found : c.freshSlot = .ok fresh) :
    c.slotsUsed = .ok fresh.slot :=
  bind_eq_ok.mpr ⟨fresh, found, rfl⟩

/-- Where space can be allotted and the slots can be counted behind it, they can be counted before. -/
theorem allot_slotsUsed {c place next : Cursor} {path : String} {space : Footprint} {used : Nat}
    (run : c.allot path space = .ok (place, next)) (counted : next.slotsUsed = .ok used) :
    ∃ before, c.slotsUsed = .ok before ∧ before ≤ used := by
  have onward := slot_le_slotsUsed counted
  have step := allot_slot_le run
  by_cases empty : c.offset = 0
  · have fresh : c.freshSlot = .ok c := if_pos empty
    exact ⟨c.slot, slotsUsed_of_freshSlot fresh, by omega⟩
  · have same : c.freshSlot = c.nextSlot := if_neg empty
    cases space with
    | packed size =>
      obtain ⟨seat, found, eq⟩ := bind_eq_ok.mp run
      obtain ⟨rfl, rfl⟩ := Prod.mk.inj (Except.ok.inj eq)
      unfold Cursor.seat at found
      split at found
      · exact ⟨seat.slot, slotsUsed_of_freshSlot (same.trans found), onward⟩
      · -- The value shares the slot of the cursor, and this slot is counted behind it.
        obtain rfl := Except.ok.inj found
        have taken : c.offset + size ≠ 0 := by omega
        have shared : (Cursor.mk c.slot (c.offset + size)).freshSlot = c.nextSlot := if_neg taken
        obtain ⟨fresh, next, eq⟩ := bind_eq_ok.mp counted
        obtain rfl := Except.ok.inj eq
        exact ⟨fresh.slot, slotsUsed_of_freshSlot (same.trans (shared.symm.trans next)), Nat.le_refl _⟩
    | slots count =>
      -- Whole slots begin where the slots in use end.
      obtain ⟨fresh, found, eq⟩ := bind_eq_ok.mp run
      have begins := (allot_slots run).1
      rw [← freshSlot_eq found] at begins
      exact ⟨fresh.slot, slotsUsed_of_freshSlot found, by rw [begins] at step; omega⟩

end Cursor

namespace Catalog

variable {c : Catalog} {slots : String → LayoutResult Nat}

theorem measureFields_slotsUsed {owner : String} {cursor last : Cursor} {fields : List Field} {used : Nat}
    (run : c.measureFields slots owner cursor fields = .ok last) (counted : last.slotsUsed = .ok used) :
    ∃ before, cursor.slotsUsed = .ok before ∧ before ≤ used := by
  induction fields generalizing cursor with
  | nil =>
    obtain rfl := Except.ok.inj run
    exact ⟨used, counted, Nat.le_refl used⟩
  | cons f fs ih =>
    obtain ⟨space, _, run⟩ := bind_eq_ok.mp run
    obtain ⟨⟨place, next⟩, allotted, run⟩ := bind_eq_ok.mp run
    obtain ⟨middle, behind, less⟩ := ih run
    obtain ⟨before, first, fewer⟩ := Cursor.allot_slotsUsed allotted behind
    exact ⟨before, first, Nat.le_trans fewer less⟩

theorem placeFields_append {inside : String → Nat → String → LayoutResult Scope} {base : Nat}
    {pathOf : String → String} {p q : List Field} {cursor last : Cursor} {scope : Scope}
    (run : c.placeFields slots inside base pathOf cursor (p ++ q) = .ok (last, scope)) :
    ∃ middle first behind, c.placeFields slots inside base pathOf cursor p = .ok (middle, first) ∧
      c.placeFields slots inside base pathOf middle q = .ok (last, behind) ∧
      scope = first.append behind := by
  induction p generalizing cursor scope with
  | nil => exact ⟨cursor, .empty, scope, rfl, run, rfl⟩
  | cons f fs ih =>
    obtain ⟨e, next, members, rest, seated, opened, onward, rfl⟩ := placeFields_cons.mp run
    obtain ⟨middle, first, behind, placed, others, rfl⟩ := ih onward
    exact ⟨middle, .entry e members first, behind,
      placeFields_cons.mpr ⟨e, next, members, first, seated, opened, placed, rfl⟩, others, rfl⟩

theorem placeFields_append_ok {inside : String → Nat → String → LayoutResult Scope} {base : Nat}
    {pathOf : String → String} {p q : List Field} {cursor middle last : Cursor} {first behind : Scope}
    (begun : c.placeFields slots inside base pathOf cursor p = .ok (middle, first))
    (others : c.placeFields slots inside base pathOf middle q = .ok (last, behind)) :
    c.placeFields slots inside base pathOf cursor (p ++ q) = .ok (last, first.append behind) := by
  induction p generalizing cursor first with
  | nil =>
    obtain ⟨rfl, rfl⟩ := Prod.mk.inj (Except.ok.inj begun)
    exact others
  | cons f fs ih =>
    obtain ⟨e, next, members, rest, seated, opened, onward, rfl⟩ := placeFields_cons.mp begun
    exact placeFields_cons.mpr
      ⟨e, next, members, rest.append behind, seated, opened, ih onward, rfl⟩

theorem stored_append (p q : List Declaration) : stored (p ++ q) = stored p ++ stored q := by
  simp [stored]

theorem place_append {p q : List Declaration} {cursor last : Cursor} {first whole : Scope}
    (begun : c.place p = .ok (cursor, first)) (run : c.place (p ++ q) = .ok (last, whole)) :
    ∃ sizes behind, c.sizes = .ok sizes ∧ Placed c sizes.slots 0 id cursor (stored q) last behind ∧
      whole = first.append behind := by
  obtain ⟨sizes, measured, _, placedFirst⟩ := place_eq_ok.mp begun
  obtain ⟨again, same, _, placedAll⟩ := place_eq_ok.mp run
  obtain rfl : sizes = again := Except.ok.inj (measured.symm.trans same)
  rw [stored_append] at placedAll
  obtain ⟨middle, front, behind, placedFront, placedBehind, whole_eq⟩ := placeFields_append placedAll
  obtain ⟨rfl, rfl⟩ := Prod.mk.inj (Except.ok.inj (placedFirst.symm.trans placedFront))
  exact ⟨sizes, behind, measured, placeFields_placed (fun _ _ _ _ => placeStruct_placed) placedBehind,
    whole_eq⟩

theorem layout_append {p q : List Declaration} {whole : Layout}
    (run : c.layout (p ++ q) = .ok whole) : ∃ first, c.layout p = .ok first ∧ first.Begins whole := by
  obtain ⟨last, scope, place, listed, counted⟩ := layout_eq_ok.mp run
  obtain ⟨sizes, measured, checked, placing⟩ := place_eq_ok.mp place
  rw [stored_append] at placing
  obtain ⟨middle, first, behind, placed, others, rfl⟩ := placeFields_append placing
  have moved := placed_measures (placeFields_placed (fun _ _ _ _ => placeStruct_placed) others) ""
  obtain ⟨used, counted', fewer⟩ := measureFields_slotsUsed moved counted
  have checked' : c.checkDeclarations (p.filter Declaration.isStored) = .ok () := by
    rw [checkDeclarations_eq_ok] at checked ⊢
    rw [List.filter_append] at checked
    exact fun d mem => checked d (List.mem_append_left _ mem)
  refine ⟨⟨first.listed.map c.assignment, used⟩, ?_, ?_, fewer⟩
  · exact layout_eq_ok.mpr ⟨middle, first, place_eq_ok.mpr ⟨sizes, measured, checked', placed⟩, rfl, counted'⟩
  · rw [listed, Scope.listed_append, List.map_append]
    exact List.prefix_append _ _

end Catalog

end ContractRegistry
