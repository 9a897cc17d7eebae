import ContractRegistry.Proofs.Layout.Append
import ContractRegistry.Proofs.Layout.Packing

/-!
A fixed array takes the slots that its elements take when they are declared one behind the other.

The slots of an array are reckoned by one division or one product. The cursor comes to the same number in
as many steps as there are elements: values fill one slot after the other, and what is left at the end of
a slot is too short for one more.
-/
namespace ContractRegistry

/-- Where a value goes that has `index` values of the same width before it, from the beginning of a slot
on. -/
def elementSeat (first width index : Nat) : Cursor :=
  ⟨first + index / (slotBytes / width), index % (slotBytes / width) * width⟩

namespace Cursor

/-- Where a value of a width goes, however large the number of the slot. -/
def seatOf (c : Cursor) (width : Nat) : Cursor :=
  if slotBytes < c.offset + width then ⟨c.slot + 1, 0⟩ else c

theorem seatOf_empty {c : Cursor} {width : Nat} (short : width ≤ slotBytes)
    (empty : (c.seatOf width).offset = 0) : c.seatOf width = ⟨c.fresh, 0⟩ := by
  obtain ⟨slot, offset⟩ := c
  simp only [seatOf] at empty ⊢
  split at empty
  · rename_i full
    have taken : offset ≠ 0 := by omega
    rw [if_pos full, fresh, if_neg taken]
  · rename_i room
    simp only at empty
    rw [if_neg room, fresh, if_pos empty, empty]

end Cursor

theorem elementSeat_zero (first width : Nat) : elementSeat first width 0 = ⟨first, 0⟩ := by
  simp [elementSeat]

theorem elementSeat_next {width : Nat} (some_bytes : 0 < width) (short : width ≤ slotBytes)
    (first index : Nat) :
    Cursor.seatOf ⟨(elementSeat first width index).slot, (elementSeat first width index).offset + width⟩ width =
      elementSeat first width (index + 1) := by
  have perSlot : 0 < slotBytes / width := Nat.div_pos short some_bytes
  have split := Nat.div_add_mod index (slotBytes / width)
  have inner := Nat.mod_lt index perSlot
  have room : slotBytes < index % (slotBytes / width) * width + width + width ↔
      slotBytes / width < index % (slotBytes / width) + 2 := by
    rw [Nat.div_lt_iff_lt_mul some_bytes, Nat.add_mul]
    omega
  simp only [Cursor.seatOf, elementSeat, room]
  by_cases last : index % (slotBytes / width) + 1 = slotBytes / width
  · have onward : (index + 1) / (slotBytes / width) = index / (slotBytes / width) + 1 ∧
        (index + 1) % (slotBytes / width) = 0 := by
      rw [Nat.div_mod_unique perSlot, Nat.mul_add]
      omega
    rw [if_pos (by omega), onward.1, onward.2, Nat.zero_mul, Nat.add_assoc]
  · have onward : (index + 1) / (slotBytes / width) = index / (slotBytes / width) ∧
        (index + 1) % (slotBytes / width) = index % (slotBytes / width) + 1 := by
      rw [Nat.div_mod_unique perSlot]
      omega
    rw [if_neg (by omega), onward.1, onward.2, Nat.add_mul, Nat.one_mul]

section

variable {c : Catalog} {slots : String → LayoutResult Nat} {base : Nat} {pathOf : String → String}
  {cursor last : Cursor} {fields : List Field} {entries : List Entry}

theorem seated_seatOf {path : String} {ty : TypeRef} {next : Cursor} {e : Entry} {width : Nat}
    (packs : ty.packedSize? = some width) (seated : Seated c slots base path ty cursor e next) :
    e.slot = base + (cursor.seatOf width).slot ∧ e.offset = (cursor.seatOf width).offset ∧
      next = ⟨(cursor.seatOf width).slot, (cursor.seatOf width).offset + width⟩ := by
  obtain ⟨place, allotted, slot, offset⟩ := seated.allotted
  rw [(Catalog.footprint_packed_iff seated.measured width).mpr packs] at allotted
  obtain ⟨begins, ends⟩ := Cursor.allot_packed allotted
  have place_eq : place = cursor.seatOf width := begins
  rw [slot, offset, ends, place_eq]
  exact ⟨rfl, rfl, rfl⟩

theorem row_values {first width index : Nat} (some_bytes : 0 < width) (short : width ≤ slotBytes)
    (row : Row c slots base pathOf cursor fields last entries)
    (packs : ∀ f ∈ fields, f.ty.packedSize? = some width)
    (here : cursor.seatOf width = elementSeat first width index) :
    (∀ i e, entries[i]? = some e → e.slot = base + (elementSeat first width (index + i)).slot ∧
      e.offset = (elementSeat first width (index + i)).offset) ∧
    (entries ≠ [] → last.fresh = first + (index + entries.length - 1) / (slotBytes / width) + 1) := by
  -- The cursor behind `index` values stands where the next one goes, or at the end of the slot before.
  induction row generalizing index with
  | done => simp
  | @next cursor next last f fs e es seated tail ih =>
    obtain ⟨own, others⟩ := List.forall_mem_cons.mp packs
    obtain ⟨slot, offset, next_eq⟩ := seated_seatOf own seated
    rw [here] at slot offset next_eq
    obtain ⟨seats, ends⟩ := ih others (by rw [next_eq]; exact elementSeat_next some_bytes short first index)
    constructor
    · intro i x found
      cases i with
      | zero =>
        obtain rfl : e = x := Option.some.inj found
        exact ⟨slot, offset⟩
      | succ i =>
        have step : index + (i + 1) = index + 1 + i := by omega
        rw [step]
        exact seats i x found
    · intro _
      cases tail with
      | done =>
        rw [next_eq, Cursor.fresh, if_neg (by simp only; omega)]
        rfl
      | next more rest =>
        rw [ends (by simp)]
        simp only [List.length_cons]
        congr 3
        omega

theorem row_blocks {each : Nat} (row : Row c slots base pathOf cursor fields last entries)
    (spaces : ∀ e ∈ entries, e.space = .slots each) :
    last.fresh = cursor.fresh + entries.length * each := by
  induction row with
  | done => simp
  | next seated tail ih =>
    obtain ⟨own, others⟩ := List.forall_mem_cons.mp spaces
    obtain ⟨place, allotted, _⟩ := seated.allotted
    rw [own] at allotted
    obtain ⟨_, rfl⟩ := Cursor.allot_slots_fresh allotted
    rw [ih others]
    simp only [Cursor.fresh, if_true, List.length_cons, Nat.add_mul]
    omega

theorem row_measured {ty : TypeRef} {space : Footprint} {path : String}
    (row : Row c slots base pathOf cursor fields last entries) (same : ∀ f ∈ fields, f.ty = ty)
    (measured : c.footprint slots path ty = .ok space) : ∀ e ∈ entries, e.space = space := by
  intro e mem
  obtain ⟨before, after, rfl⟩ := List.append_of_mem mem
  obtain ⟨f, origin, next, rest, member, _, _, seated, _⟩ := row_split row
  have own := seated.measured
  rw [same f member, Catalog.footprint_extends (Catalog.extends_refl slots) measured] at own
  exact (Except.ok.inj own).symm

theorem placed_flat {scope : Scope} (placed : Placed c slots base pathOf cursor fields last scope)
    (flat : ∀ f ∈ fields, ∀ name, f.ty ≠ .struct name) : scope.listed = scope.entries := by
  induction placed with
  | done => rfl
  | plain _ _ _ ih =>
    have behind := ih (List.forall_mem_cons.mp flat).2
    simp [Scope.listed, Scope.entries, behind]
  | struct seated named _ _ _ _ _ =>
    rw [seated.ty_eq] at named
    exact absurd named ((List.forall_mem_cons.mp flat).1 _)

theorem listed_head (scope : Scope) : scope.listed.head? = scope.entries.head? := by
  cases scope <;> rfl

end

/-- An array behind other declarations, and its elements in its place as declarations of their own. The
array begins the first slot that is not in use. It takes the slots that the elements take, and its values
are placed by their number in it. -/
structure ElementsLaw (c : Catalog) (array : Declaration) (element : TypeRef)
    (elements : List Declaration) (start whole apart : Layout) : Prop where
  reserved : ∃ sizes count, c.sizes = .ok sizes ∧
    c.footprint sizes.slots array.name array.ty = .ok (.slots count) ∧
    whole.slotsUsed = start.slotsUsed + count ∧ apart.slotsUsed = start.slotsUsed + count
  begins : ∃ a, whole.assignments = start.assignments ++ [a] ∧ a.name = array.name ∧
    a.slot = start.slotsUsed ∧ a.offset = 0
  seats : ∀ width, element.packedSize? = some width → ∀ i d, elements[i]? = some d →
    ∃ a, apart.assignments[start.assignments.length + i]? = some a ∧ a.name = d.name ∧
      a.slot = start.slotsUsed + i / (slotBytes / width) ∧ a.offset = i % (slotBytes / width) * width

section

variable {c : Catalog} {slots : String → LayoutResult Nat} {cursor last : Cursor} {scope : Scope}

theorem getElem?_behind {start whole : Layout}
    (listed : whole.assignments = start.assignments ++ scope.listed.map c.assignment) (i : Nat) :
    whole.assignments[start.assignments.length + i]? = scope.listed[i]?.map c.assignment := by
  rw [listed, List.getElem?_append_right (Nat.le_add_right _ _), Nat.add_sub_cancel_left, List.getElem?_map]

theorem stored_all {declarations : List Declaration} (kept : ∀ d ∈ declarations, d.isStored) :
    Catalog.stored declarations = declarations.map Declaration.field := by
  rw [Catalog.stored, List.filter_eq_self.mpr kept]

theorem placed_array {base length : Nat} {array : Field} {element : TypeRef}
    (placed : Placed c slots base id cursor [array] last scope)
    (kind : array.ty = .fixedArray element length) :
    ∃ e count, scope.listed = [e] ∧ e.path = array.name ∧ e.slot = base + cursor.fresh ∧ e.offset = 0 ∧
      c.footprint slots array.name array.ty = .ok (.slots count) ∧ last.fresh = cursor.fresh + count := by
  cases placed with
  | struct seated named _ _ _ =>
    rw [seated.ty_eq, kind] at named
    contradiction
  | @plain _ _ _ next _ _ _ e _ seated _ tail =>
    cases tail
    have measured := seated.measured
    rw [kind] at measured
    obtain ⟨_, _, count, _, _, space⟩ := Catalog.footprint_array.mp measured
    obtain ⟨place, allotted, slot, offset⟩ := seated.allotted
    rw [space] at allotted measured
    rw [kind]
    obtain ⟨rfl, rfl⟩ := Cursor.allot_slots_fresh allotted
    exact ⟨e, count, rfl, seated.path_eq, slot, offset, measured, rfl⟩

/-- The first value of a row that begins a slot begins the first slot that is not in use. -/
theorem row_begins {base width : Nat} {pathOf : String → String} {fields : List Field} {entries : List Entry}
    (short : width ≤ slotBytes) (row : Row c slots base pathOf cursor fields last entries)
    (packs : ∀ f ∈ fields, f.ty.packedSize? = some width) (some_entries : entries ≠ [])
    (fresh : ∀ e, entries.head? = some e → e.offset = 0) :
    cursor.seatOf width = elementSeat cursor.fresh width 0 := by
  cases row with
  | done => contradiction
  | next seated tail =>
    have empty := (seated_seatOf (List.forall_mem_cons.mp packs).1 seated).2.1
    rw [fresh _ rfl] at empty
    rw [elementSeat_zero]
    exact Cursor.seatOf_empty short empty.symm

theorem row_elements {base count : Nat} {pathOf : String → String} {path : String} {element : TypeRef}
    {each : Footprint} {fields : List Field} {entries : List Entry}
    (row : Row c slots base pathOf cursor fields last entries) (same : ∀ f ∈ fields, f.ty = element)
    (measured : c.footprint slots path element = .ok each) (some_entries : entries ≠ [])
    (counted : Catalog.arraySlots path entries.length each = .ok count)
    (fresh : ∀ e, entries.head? = some e → e.offset = 0) : last.fresh = cursor.fresh + count := by
  cases each with
  | packed width =>
    obtain ⟨some_bytes, short, rfl⟩ := Catalog.arraySlots_values counted
    have packs : ∀ f ∈ fields, f.ty.packedSize? = some width := by
      intro f mem
      rw [same f mem]
      exact (Catalog.footprint_packed_iff measured width).mp rfl
    have begins := row_begins short row packs some_entries fresh
    have ends := (row_values some_bytes short row packs begins).2 some_entries
    -- One division less one element, and one slot more, is the division that rounds up.
    have perSlot : 0 < slotBytes / width := Nat.div_pos short some_bytes
    have some_elements := List.length_pos_of_ne_nil some_entries
    have rounded : entries.length + slotBytes / width - 1 = entries.length - 1 + slotBytes / width := by omega
    rw [ends, rounded, Nat.add_div_right _ perSlot, Nat.zero_add]
    rfl
  | slots each =>
    rw [Catalog.arraySlots_blocks counted]
    exact row_blocks row (row_measured row same measured)

theorem placed_values {width : Nat} {elements : List Declaration} (some_bytes : 0 < width)
    (short : width ≤ slotBytes)
    (placed : Placed c slots 0 id cursor (elements.map Declaration.field) last scope)
    (packs : ∀ d ∈ elements, d.ty.packedSize? = some width)
    (fresh : ∀ e, scope.listed.head? = some e → e.offset = 0) {i : Nat} {d : Declaration}
    (found : elements[i]? = some d) :
    ∃ e, scope.listed[i]? = some e ∧ e.path = d.name ∧
      e.slot = (elementSeat cursor.fresh width i).slot ∧ e.offset = (elementSeat cursor.fresh width i).offset := by
  have values : ∀ f ∈ elements.map Declaration.field, f.ty.packedSize? = some width :=
    List.forall_mem_map.mpr packs
  have flat : ∀ f ∈ elements.map Declaration.field, ∀ name, f.ty ≠ .struct name := by
    intro f mem name named
    have sized := values f mem
    simp [named, TypeRef.packedSize?] at sized
  have row := placed_row placed
  rw [placed_flat placed flat] at fresh ⊢
  have members := row_members row
  rw [List.map_map] at members
  have both := congrArg (fun l => l[i]?) members
  simp only [List.getElem?_map, found, Option.map_some, Option.map_eq_some_iff] at both
  obtain ⟨e, here, eq⟩ := both
  have some_entries : scope.entries ≠ [] := List.ne_nil_of_mem (List.mem_of_getElem? here)
  have begins := row_begins short row values some_entries fresh
  have seats := (row_values some_bytes short row values begins).1 i e here
  simp only [Nat.zero_add] at seats
  exact ⟨e, here, (Prod.mk.inj eq).1, seats⟩

end

/-- A fixed array is its elements declared one behind the other from a fresh slot on. -/
theorem array_is_its_elements (c : Catalog) (before elements : List Declaration) (array : Declaration)
    (element : TypeRef) (start whole apart : Layout) (stored : array.isStored)
    (kind : array.ty = .fixedArray element elements.length)
    (same : ∀ d ∈ elements, d.isStored ∧ d.ty = element) (begun : c.layout before = .ok start)
    (inOne : c.layout (before ++ [array]) = .ok whole) (inMany : c.layout (before ++ elements) = .ok apart)
    (fresh : ∀ a, apart.assignments[start.assignments.length]? = some a → a.offset = 0) :
    ElementsLaw c array element elements start whole apart := by
  obtain ⟨cursor, first, place, listed, counted⟩ := Catalog.layout_placed begun
  obtain ⟨lastOne, scopeOne, placeOne, listedOne, countedOne⟩ := Catalog.layout_placed inOne
  obtain ⟨lastMany, scopeMany, placeMany, listedMany, countedMany⟩ := Catalog.layout_placed inMany
  obtain ⟨sizes, arrayScope, measured, placedOne, rfl⟩ := Catalog.place_append place placeOne
  obtain ⟨again, elementScope, remeasured, placedMany, rfl⟩ := Catalog.place_append place placeMany
  obtain rfl : sizes = again := Except.ok.inj (measured.symm.trans remeasured)
  -- Both stand behind the same declarations, so the assignments of these are the first in both.
  rw [Scope.listed_append, List.map_append, ← listed] at listedOne listedMany
  rw [stored_all (by simpa using stored)] at placedOne
  rw [stored_all fun d mem => (same d mem).1] at placedMany
  obtain ⟨e, count, alone, path, slot, offset, space, ends⟩ := placed_array placedOne kind
  have array_space : c.footprint sizes.slots array.name array.ty = .ok (.slots count) := space
  rw [kind] at array_space
  obtain ⟨some_elements, each, _, element_space, product, eq⟩ := Catalog.footprint_array.mp array_space
  obtain rfl := Footprint.slots.inj eq
  have used := Cursor.slotsUsed_fresh counted
  have row := placed_row placedMany
  have many : elementScope.entries.length = elements.length := by
    simpa using congrArg List.length (row_members row)
  have some_entries : elementScope.entries ≠ [] := List.ne_nil_of_length_pos (by omega)
  have at_fresh : ∀ e, elementScope.listed.head? = some e → e.offset = 0 := by
    intro e head
    apply fresh (c.assignment e)
    rw [← Nat.add_zero start.assignments.length, getElem?_behind listedMany, ← List.head?_eq_getElem?, head]
    rfl
  have types : ∀ f ∈ elements.map Declaration.field, f.ty = element :=
    List.forall_mem_map.mpr fun d mem => (same d mem).2
  have spread : lastMany.fresh = cursor.fresh + count := by
    rw [listed_head] at at_fresh
    exact row_elements row types element_space some_entries (by rw [many]; exact product) at_fresh
  constructor
  · exact ⟨sizes, count, measured, space, by rw [Cursor.slotsUsed_fresh countedOne, ends, used],
      by rw [Cursor.slotsUsed_fresh countedMany, spread, used]⟩
  · refine ⟨c.assignment e, ?_, path, ?_, offset⟩
    · rw [listedOne, alone]
      rfl
    · rw [used, ← Nat.zero_add cursor.fresh]
      exact slot
  · intro width packs i d found
    rw [(Catalog.footprint_packed_iff element_space width).mpr packs] at product
    obtain ⟨some_bytes, short, _⟩ := Catalog.arraySlots_values product
    have values : ∀ d ∈ elements, d.ty.packedSize? = some width := by
      intro d mem
      rw [(same d mem).2]
      exact packs
    obtain ⟨e, here, name, atSlot, atOffset⟩ := placed_values some_bytes short placedMany values at_fresh found
    refine ⟨c.assignment e, ?_, name, ?_, atOffset⟩
    · rw [getElem?_behind listedMany, here]
      rfl
    · rw [used]
      exact atSlot

/-- Three values of 13 bytes, of which two go in a slot. -/
def amounts : List Declaration :=
  [⟨"first", .elementary (.uint 104), none, .mutable⟩, ⟨"second", .elementary (.uint 104), none, .mutable⟩,
    ⟨"third", .elementary (.uint 104), none, .mutable⟩]

def amountArray : Declaration :=
  ⟨"all", .fixedArray (.elementary (.uint 104)) 3, none, .mutable⟩

/-- An address, behind which there is no room for one of the values. -/
def ownerDeclaration : Declaration :=
  ⟨"owner", .elementary .address, none, .mutable⟩

theorem amounts_spread :
    ∃ start whole apart, walletCatalog.layout [ownerDeclaration] = .ok start ∧
      walletCatalog.layout ([ownerDeclaration] ++ [amountArray]) = .ok whole ∧
      walletCatalog.layout ([ownerDeclaration] ++ amounts) = .ok apart ∧
      apart.assignments.map (fun a => (a.slot, a.offset)) = [(0, 0), (1, 0), (1, 13), (2, 0)] ∧
      ElementsLaw walletCatalog amountArray (.elementary (.uint 104)) amounts start whole apart := by
  refine ⟨⟨[⟨"owner", 0, 0, 20, "address", .value⟩], 1⟩,
    ⟨[⟨"owner", 0, 0, 20, "address", .value⟩, ⟨"all", 1, 0, 64, "uint104[3]", .value⟩], 3⟩,
    ⟨[⟨"owner", 0, 0, 20, "address", .value⟩, ⟨"first", 1, 0, 13, "uint104", .value⟩,
      ⟨"second", 1, 13, 13, "uint104", .value⟩, ⟨"third", 2, 0, 13, "uint104", .value⟩], 3⟩,
    rfl, rfl, rfl, by decide, ?_⟩
  apply array_is_its_elements walletCatalog [ownerDeclaration] amounts amountArray
  · decide
  · rfl
  · decide
  · rfl
  · rfl
  · rfl
  · decide

end ContractRegistry
