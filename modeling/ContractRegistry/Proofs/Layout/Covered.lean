import ContractRegistry.Proofs.Layout.Packing

/-!
The slots that a layout uses are all in use.

Every member takes a byte at least, and a cursor leaves a slot only behind a byte of it. So what is placed
between two cursors touches all slots from the first free slot of the one to that of the other. A struct
touches its slots by its members, and it has as many slots as they touch.
-/
namespace ContractRegistry

namespace Cursor

theorem allot_reaches {c place next : Cursor} {path : String} {space : Footprint} (sized : space.Sized)
    (within : c.offset ≤ slotBytes) (run : c.allot path space = .ok (place, next)) {slot : Nat}
    (above : c.fresh ≤ slot) (below : slot < next.fresh) :
    place.position ≤ slot * slotBytes ∧ slot * slotBytes < place.position + space.extent := by
  cases space with
  | packed size =>
    obtain ⟨begins, ends⟩ := allot_packed run
    have some_bytes := sized.1
    have short := sized.2
    by_cases full : slotBytes < c.offset + size
    · rw [if_pos full] at begins
      subst begins ends
      simp only [fresh, position, Footprint.extent, slotBytes] at *
      split at below <;> split at above <;> omega
    · rw [if_neg full] at begins
      subst begins ends
      simp only [fresh, position, Footprint.extent, slotBytes] at *
      split at below <;> split at above <;> omega
  | slots count =>
    obtain ⟨rfl, rfl⟩ := allot_slots_fresh run
    have begun : (Cursor.mk (c.fresh + count) 0).fresh = c.fresh + count := rfl
    rw [begun] at below
    simp only [position, Footprint.extent, slotBytes]
    omega

end Cursor

namespace Assignment

/-- Whether a slot is among those that the assignment spans. -/
def Touches (a : Assignment) (slot : Nat) : Prop :=
  a.slot ≤ slot ∧ slot < a.slot + a.slotSpan

theorem touches_iff_bytes {a : Assignment} (filled : 0 < a.size) (inSlot : a.offset < slotBytes)
    (slot : Nat) : a.Touches slot ↔ a.firstByte < (slot + 1) * slotBytes ∧ slot * slotBytes < a.endByte := by
  simp only [Touches, slotSpan, endByte, firstByte, slotBytes] at *
  omega

end Assignment

namespace Layout

def leaves (l : Layout) : List Assignment :=
  l.assignments.filter fun a => a.role ≠ .composite

end Layout

namespace Scope

def leaves (s : Scope) : List Entry :=
  s.listed.filter fun e => e.ty.role ≠ .composite

theorem leaves_subset {s : Scope} {e : Entry} (mem : e ∈ s.leaves) : e ∈ s.listed :=
  (List.mem_filter.mp mem).1

theorem leaves_struct {e : Entry} {name : String} (named : e.ty = .struct name) (members rest : Scope) :
    (Scope.entry e members rest).leaves = members.leaves ++ rest.leaves := by
  simp [leaves, listed, named, TypeRef.role]

theorem leaves_plain {e : Entry} (flat : ∀ name, e.ty ≠ .struct name) (rest : Scope) :
    (Scope.entry e .empty rest).leaves = e :: rest.leaves := by
  have role : e.ty.role ≠ .composite := by
    cases kind : e.ty with
    | struct name => exact absurd kind (flat name)
    | elementary k =>
      simp only [TypeRef.role]
      split <;> simp
    | _ => simp [TypeRef.role]
  simp [leaves, listed, role]

theorem leaves_apart {s : Scope} {low high : Nat} (nested : s.Nested low high) :
    s.leaves.Pairwise fun a b => a.endByte ≤ b.firstByte := by
  induction s generalizing low high with
  | empty => exact List.Pairwise.nil
  | entry e members rest ihm ihr =>
    obtain ⟨_, flat, inside, behind⟩ := nested
    by_cases struct : ∃ name, e.ty = .struct name
    · obtain ⟨name, named⟩ := struct
      rw [leaves_struct named, List.pairwise_append]
      refine ⟨ihm inside, ihr behind, ?_⟩
      intro a first b second
      have ends := (nested_bounds inside a (leaves_subset first)).2
      have begins := (nested_bounds behind b (leaves_subset second)).1
      omega
    · obtain rfl : members = .empty := flat.resolve_left struct
      rw [leaves_plain fun name named => struct ⟨name, named⟩, List.pairwise_cons]
      refine ⟨?_, ihr behind⟩
      intro b second
      exact (nested_bounds behind b (leaves_subset second)).1

end Scope

namespace Catalog

def Filled (slots : String → LayoutResult Nat) : Prop :=
  ∀ name count, slots name = .ok count → 0 < count

variable {c : Catalog} {slots : String → LayoutResult Nat}

theorem arraySlots_filled {path : String} {length count : Nat} {each : Footprint}
    (some_elements : length ≠ 0) (filled : 0 < each.extent)
    (run : arraySlots path length each = .ok count) : 0 < count := by
  cases each with
  | packed size =>
    obtain ⟨some_bytes, short, rfl⟩ := arraySlots_values run
    have perSlot : 0 < slotBytes / size := Nat.div_pos short some_bytes
    exact Nat.div_pos (by omega) perSlot
  | slots each =>
    rw [arraySlots_blocks run]
    simp only [Footprint.extent, slotBytes] at filled
    exact Nat.mul_pos (by omega) (by omega)

theorem footprint_filled (filled : Filled slots) {path : String} {ty : TypeRef} {space : Footprint}
    (sized : ty.Sized) (run : c.footprint slots path ty = .ok space) : 0 < space.extent := by
  have whole : ∀ {count : Nat}, 0 < count → 0 < (Footprint.slots count).extent := by
    intro count positive
    exact Nat.mul_pos positive (by decide)
  induction ty generalizing space with
  | elementary kind =>
    simp only [footprint] at run
    split at run
    · rename_i size packs
      rw [← Except.ok.inj run]
      exact (sized size packs).1
    · rw [← Except.ok.inj run]
      exact whole Nat.one_pos
  | fixedArray element length ih =>
    obtain ⟨some_elements, each, count, measured, counted, rfl⟩ := footprint_array.mp run
    exact whole (arraySlots_filled some_elements (ih sized measured) counted)
  | dynamicArray element _ =>
    obtain ⟨_, _, eq⟩ := bind_eq_ok.mp run
    rw [← Except.ok.inj eq]
    exact whole Nat.one_pos
  | mapping key value _ _ =>
    cases key with
    | elementary kind =>
      obtain ⟨_, _, eq⟩ := bind_eq_ok.mp run
      rw [← Except.ok.inj eq]
      exact whole Nat.one_pos
    | _ => simp [footprint] at run
  | struct name =>
    obtain ⟨count, known, eq⟩ := bind_eq_ok.mp run
    rw [← Except.ok.inj eq]
    exact whole (filled name count known)

theorem measureFields_filled (filled : Filled slots) {owner : String} {cursor last : Cursor}
    {fields : List Field} (sized : ∀ f ∈ fields, f.ty.Sized) (within : cursor.offset ≤ slotBytes)
    (run : c.measureFields slots owner cursor fields = .ok last) :
    last.offset ≤ slotBytes ∧ cursor.position + fields.length ≤ last.position := by
  induction fields generalizing cursor with
  | nil =>
    obtain rfl := Except.ok.inj run
    exact ⟨within, Nat.le_refl _⟩
  | cons f fs ih =>
    obtain ⟨first, others⟩ := List.forall_mem_cons.mp sized
    obtain ⟨space, measured, run⟩ := bind_eq_ok.mp run
    obtain ⟨⟨place, next⟩, allotted, run⟩ := bind_eq_ok.mp run
    have step := Cursor.allot_position within allotted
    have taken := footprint_filled filled first measured
    have bounded := Cursor.allot_in_slot (footprint_sized first measured) allotted
    obtain ⟨stays, forward⟩ := ih others bounded run
    refine ⟨stays, ?_⟩
    simp only [List.length_cons]
    omega

theorem measure_filled (filled : Filled slots) {d : StructDef} {count : Nat}
    (sized : ∀ f ∈ d.fields, f.ty.Sized) (run : c.measure slots d = .ok count) : 0 < count := by
  obtain ⟨some_members, last, moved, used⟩ := measure_eq_ok.mp run
  obtain ⟨bounded, forward⟩ := measureFields_filled filled sized (Nat.zero_le _) moved
  have reaches := Cursor.position_le_slotsUsed bounded used
  have members := List.length_pos_of_ne_nil some_members
  simp only [Cursor.position_start, slotBytes] at forward reaches
  omega

theorem measureAll_filled (types : c.Sized) {sizes : Sizes} (filled : Filled sizes.slots)
    (names : List String) : Filled (c.measureAll sizes names).slots := by
  induction names generalizing sizes with
  | nil => exact filled
  | cons name names ih =>
    simp only [measureAll]
    split
    · rename_i d found
      apply ih
      intro other count run
      rw [Sizes.slots_cons] at run
      split at run
      · exact measure_filled filled (types d (struct?_mem found)) run
      · exact filled other count run
    · exact ih filled

theorem sizes_filled (types : c.Sized) {sizes : Sizes} (run : c.sizes = .ok sizes) :
    Filled sizes.slots := by
  obtain ⟨order, _, eq⟩ := bind_eq_ok.mp run
  rw [← Except.ok.inj eq]
  apply measureAll_filled types
  intro name count known
  simp [Sizes.slots] at known

end Catalog

def Entry.Reaches (e : Entry) (slot : Nat) : Prop :=
  e.firstByte < (slot + 1) * slotBytes ∧ slot * slotBytes < e.endByte

section

variable {c : Catalog} {slots : String → LayoutResult Nat}

theorem seated_reaches {base : Nat} {path : String} {ty : TypeRef} {cursor next : Cursor} {e : Entry}
    (sized : ty.Sized) (within : cursor.offset ≤ slotBytes)
    (seated : Seated c slots base path ty cursor e next) {slot : Nat} (above : base + cursor.fresh ≤ slot)
    (below : slot < base + next.fresh) : e.Reaches slot := by
  obtain ⟨place, allotted, atSlot, atOffset⟩ := seated.allotted
  obtain ⟨own, rfl⟩ : ∃ own, slot = base + own := ⟨slot - base, by omega⟩
  have reached := Cursor.allot_reaches (Catalog.footprint_sized sized seated.measured) within allotted
    (Nat.add_le_add_iff_left.mp above) (Nat.add_lt_add_iff_left.mp below)
  simp only [Entry.Reaches, Entry.endByte, Entry.firstByte, atSlot, atOffset]
  simp only [Cursor.position, slotBytes] at *
  omega

theorem seated_filled (filled : Catalog.Filled slots) {base : Nat} {path : String} {ty : TypeRef}
    {cursor next : Cursor} {e : Entry} (sized : ty.Sized)
    (seated : Seated c slots base path ty cursor e next) :
    0 < e.space.extent ∧ e.offset < slotBytes := by
  have taken := Catalog.footprint_filled filled sized seated.measured
  refine ⟨taken, ?_⟩
  cases packs : e.ty.packedSize? with
  | none =>
    rw [seated_aligned seated (by rw [← seated.ty_eq]; exact packs)]
    decide
  | some size =>
    obtain ⟨space, bounded⟩ := seated_value sized seated size packs
    rw [space] at taken
    simp only [Footprint.extent] at taken
    omega

/-- A struct begins the first free slot, and its slots are those up to the next free one. -/
theorem seated_struct_slots {base count : Nat} {path : String} {ty : TypeRef} {cursor next : Cursor}
    {e : Entry} (seated : Seated c slots base path ty cursor e next) (space : e.space = .slots count) :
    e.slot = base + cursor.fresh ∧ base + next.fresh = e.slot + count := by
  obtain ⟨place, allotted, atSlot, _⟩ := seated.allotted
  rw [space] at allotted
  obtain ⟨rfl, rfl⟩ := Cursor.allot_slots_fresh allotted
  rw [atSlot]
  exact ⟨rfl, (Nat.add_assoc _ _ _).symm⟩

/-- Every slot from the first free one of the cursor before to that of the cursor behind is reached by
something that is no struct. -/
theorem placed_covered {sizes : Catalog.Sizes} (sound : sizes.Sound c) (types : c.Sized) {base : Nat}
    {pathOf : String → String} {cursor last : Cursor} {fields : List Field} {scope : Scope}
    (placed : Placed c sizes.slots base pathOf cursor fields last scope)
    (sized : ∀ f ∈ fields, f.ty.Sized) (within : cursor.offset ≤ slotBytes) {slot : Nat}
    (above : base + cursor.fresh ≤ slot) (below : slot < base + last.fresh) :
    ∃ e ∈ scope.leaves, e.Reaches slot := by
  -- The slot is one that the first member puts in use, or one that those behind it do. A struct puts
  -- in use what its members do, from its first slot on.
  induction placed with
  | done => omega
  | @plain base pathOf cursor next last f fs e rest seated flat _ ih =>
    obtain ⟨first, others⟩ := List.forall_mem_cons.mp sized
    rw [Scope.leaves_plain flat]
    by_cases here : slot < base + next.fresh
    · exact ⟨e, List.mem_cons_self, seated_reaches first within seated above here⟩
    · obtain ⟨x, mem, reached⟩ := ih others (seated_in_slot first seated) (by omega) below
      exact ⟨x, List.mem_cons_of_mem e mem, reached⟩
  | @struct base pathOf cursor next last stop f fs e members rest name d seated named found inner _
      inside ih =>
    obtain ⟨first, others⟩ := List.forall_mem_cons.mp sized
    rw [Scope.leaves_struct named]
    by_cases here : slot < base + next.fresh
    · obtain ⟨count, known, space⟩ := seated_struct seated named
      obtain ⟨begins, ends⟩ := seated_struct_slots seated space
      have fills := Cursor.slotsUsed_fresh (members_fill sound known found inner)
      have aboveInner : e.slot + Cursor.start.fresh ≤ slot := by
        rw [begins]
        exact above
      have belowInner : slot < e.slot + stop.fresh := by
        rw [← fills, ← ends]
        exact here
      obtain ⟨x, mem, reached⟩ := inside (fields_sized types found) (Nat.zero_le _) aboveInner belowInner
      exact ⟨x, List.mem_append_left _ mem, reached⟩
    · obtain ⟨x, mem, reached⟩ := ih others (seated_in_slot first seated) (by omega) below
      exact ⟨x, List.mem_append_right _ mem, reached⟩

end

/-- The assignments that are no structs lie in strict order, and the slots in use are those that one of
them touches. -/
structure TightLaw (l : Layout) : Prop where
  ordered : l.leaves.Pairwise fun a b => a.slot < b.slot ∨ a.slot = b.slot ∧ a.offset < b.offset
  touched : ∀ slot, slot < l.slotsUsed → ∃ a ∈ l.leaves, a.Touches slot
  within : ∀ a ∈ l.leaves, ∀ slot, a.Touches slot → slot < l.slotsUsed

theorem leaves_listed {c : Catalog} {l : Layout} {scope : Scope}
    (listed : l.assignments = scope.listed.map c.assignment) :
    l.leaves = scope.leaves.map c.assignment := by
  simp only [Layout.leaves, listed, List.filter_map, Scope.leaves]
  rfl

theorem tight_law {c : Catalog} {l : Layout} {scope : Scope}
    (leaves : l.leaves = scope.leaves.map c.assignment) (nested : scope.Nested 0 (l.slotsUsed * slotBytes))
    (filled : ∀ e ∈ scope.listed, 0 < e.space.extent ∧ e.offset < slotBytes)
    (told : ∀ e ∈ scope.leaves, (c.assignment e).size = e.space.extent)
    (covered : ∀ slot, slot < l.slotsUsed → ∃ e ∈ scope.leaves, e.Reaches slot) : TightLaw l := by
  have touches : ∀ e ∈ scope.leaves, ∀ slot, (c.assignment e).Touches slot ↔ e.Reaches slot := by
    intro e mem slot
    obtain ⟨taken, inSlot⟩ := filled e (Scope.leaves_subset mem)
    have size := told e mem
    rw [Assignment.touches_iff_bytes (by omega) inSlot]
    simp only [Entry.Reaches, Entry.endByte, Assignment.endByte, size]
    rfl
  constructor
  · rw [leaves, List.pairwise_map]
    apply (Scope.leaves_apart nested).imp_of_mem
    intro a b memA memB apart
    obtain ⟨taken, inSlotA⟩ := filled a (Scope.leaves_subset memA)
    obtain ⟨_, inSlotB⟩ := filled b (Scope.leaves_subset memB)
    simp only [Entry.endByte, Entry.firstByte, slotBytes] at apart inSlotA inSlotB
    simp only [Catalog.assignment]
    omega
  · intro slot used
    obtain ⟨e, mem, reached⟩ := covered slot used
    rw [leaves]
    exact ⟨c.assignment e, List.mem_map_of_mem mem, (touches e mem slot).mpr reached⟩
  · intro a mem slot touched
    rw [leaves] at mem
    obtain ⟨e, leaf, rfl⟩ := List.mem_map.mp mem
    have reached := ((touches e leaf slot).mp touched).2
    have ends := (Scope.nested_bounds nested e (Scope.leaves_subset leaf)).2
    exact Nat.lt_of_mul_lt_mul_right (Nat.lt_of_lt_of_le reached ends)

/-- A layout in which no size was cut uses no slot in vain and skips none. -/
theorem slots_all_touched (c : Catalog) (declarations : List Declaration) (l : Layout)
    (types : c.Sized) (declared : ∀ d ∈ declarations, d.ty.Sized)
    (run : c.layout declarations = .ok l) (told : ∀ a ∈ l.leaves, a.size ≠ largestSize) : TightLaw l := by
  obtain ⟨cursor, scope, place, listed, counted⟩ := Catalog.layout_placed run
  obtain ⟨sizes, measured, placed⟩ := Catalog.place_placed place
  have sized := stored_sized declared
  have sound := Catalog.sizes_sound measured
  have leaves := leaves_listed listed
  obtain ⟨nested, bounded⟩ := placed_nested sound types placed sized (Nat.zero_le _)
  have ends := Cursor.position_le_slotsUsed bounded counted
  apply tight_law leaves
  · simp only [Cursor.position_start, Nat.zero_mul, Nat.zero_add] at nested
    exact Scope.nested_mono nested ends
  · exact placed_forall types
      (fun sized _ seated => seated_filled (Catalog.sizes_filled types measured) sized seated) placed sized
      (Nat.zero_le _)
  · intro e mem
    apply Footprint.bytes_eq_extent
    apply told (c.assignment e)
    rw [leaves]
    exact List.mem_map_of_mem mem
  · intro slot used
    rw [Cursor.slotsUsed_fresh counted] at used
    apply placed_covered sound types placed sized (Nat.zero_le _)
    · exact Nat.zero_le slot
    · rw [Nat.zero_add]
      exact used

theorem mixed_slots_touched :
    ∃ l, walletCatalog.layout mixedDeclarations = .ok l ∧ l.slotsUsed = 7 ∧
      l.leaves.map (fun a => (a.slot, a.offset)) =
        [(0, 0), (0, 2), (1, 0), (3, 0), (3, 1), (4, 0), (5, 0), (6, 0)] ∧ TightLaw l :=
  ⟨_, rfl, by decide, by decide, slots_all_touched walletCatalog mixedDeclarations _ walletCatalog_sized
    (by simp [mixedDeclarations, TypeRef.Sized, Elementary.Sized, Elementary.packedSize?,
      addressBytes, slotBytes]) rfl (by decide)⟩

end ContractRegistry
