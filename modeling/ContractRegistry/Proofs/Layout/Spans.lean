import ContractRegistry.Proofs.Layout.Covered

/-!
The slots that are told for an assignment.

The allocator counts slots. An assignment tells bytes, and what it spans is reckoned back from them. The
bytes of very many slots are cut to the largest size, so the slots come back exactly when there are not
too many of them; the range that is shown ends too early otherwise. Ranges that are cut are still parts
of the slots that were reserved, and those of two assignments do not meet unless one is inside the other.

Nothing is asked of the sizes of built-in types until the end, so values that are larger than a slot and
structs without a byte are counted too.
-/
namespace ContractRegistry

def largestSpan : Nat :=
  Numeral.limit64 / slotBytes

theorem one_le_largestSpan : 1 ≤ largestSpan := by
  decide

def rangeText (first count : Nat) : String :=
  if 1 < count then toString first ++ "..=" ++ toString (first + count - 1) else toString first

namespace Footprint

/-- A value that lies in one slot, or slots that are not too many for their bytes. -/
def Tellable : Footprint → Prop
  | .packed size => size ≤ slotBytes
  | .slots count => 0 < count ∧ count ≤ largestSpan

end Footprint

namespace Entry

/-- The slot behind the reserved ones. A value leaves its slot open. -/
def slotBehind (e : Entry) : Nat :=
  match e.space with
  | .packed _ => e.slot
  | .slots count => e.slot + count

/-- Whole slots begin a slot, and a value ends in its slot if it is no larger than one. -/
def InPlace (e : Entry) : Prop :=
  match e.space with
  | .packed size => size ≤ slotBytes → e.offset + size ≤ slotBytes
  | .slots _ => e.offset = 0

end Entry

section

variable {c : Catalog} {slots : String → LayoutResult Nat} {base : Nat} {path : String}
  {ty : TypeRef} {cursor next : Cursor} {e : Entry}

theorem seated_inPlace (seated : Seated c slots base path ty cursor e next) : e.InPlace := by
  obtain ⟨place, allotted, _, offset⟩ := seated.allotted
  unfold Entry.InPlace
  rw [offset]
  cases space : e.space with
  | packed size =>
    intro short
    rw [space] at allotted
    rw [(Cursor.allot_packed allotted).1]
    split
    · simp only
      omega
    · omega
  | slots count =>
    rw [space] at allotted
    rw [(Cursor.allot_slots_fresh allotted).1]

theorem seated_slots (seated : Seated c slots base path ty cursor e next) :
    base + cursor.slot ≤ e.slot ∧ e.slotBehind = base + next.slot := by
  obtain ⟨place, allotted, atSlot, _⟩ := seated.allotted
  have forward := (Cursor.allot_slot_le allotted).1
  constructor
  · omega
  · unfold Entry.slotBehind
    cases space : e.space with
    | packed size =>
      rw [space] at allotted
      rw [(Cursor.allot_packed allotted).2]
      exact atSlot
    | slots count =>
      rw [space] at allotted
      rw [(Cursor.allot_slots allotted).2]
      simp only
      omega

theorem footprint_role {space : Footprint} (run : c.footprint slots path ty = .ok space) :
    (∀ size, space = .packed size → ty.role = .value) ∧ (ty.role = .baseSlot → space = .slots 1) := by
  cases ty with
  | elementary kind => cases kind <;> cases run <;> simp [TypeRef.role, Elementary.isDynamic]
  | fixedArray element length => simp [TypeRef.role]
  | dynamicArray element =>
    obtain ⟨_, _, eq⟩ := bind_eq_ok.mp run
    simp [← Except.ok.inj eq]
  | mapping key value =>
    cases key with
    | elementary kind =>
      obtain ⟨_, _, eq⟩ := bind_eq_ok.mp run
      simp [← Except.ok.inj eq]
    | _ => simp [Catalog.footprint] at run
  | struct name =>
    obtain ⟨count, _, eq⟩ := bind_eq_ok.mp run
    simp [← Except.ok.inj eq, TypeRef.role]

end

/-- Between two cursors the reserved slots lie in order, and those of members in those of their struct. -/
theorem placed_spread {c : Catalog} {sizes : Catalog.Sizes} (sound : sizes.Sound c) {base : Nat}
    {pathOf : String → String} {cursor last : Cursor} {fields : List Field} {scope : Scope}
    (placed : Placed c sizes.slots base pathOf cursor fields last scope) :
    scope.Spread Entry.slot Entry.slotBehind (base + cursor.slot) (base + last.slot) := by
  have own : ∀ e : Entry, e.slot ≤ e.slotBehind := by
    intro e
    unfold Entry.slotBehind
    split <;> omega
  induction placed with
  | done => exact Nat.le_refl _
  | @plain base pathOf cursor next last f fs e rest seated flat _ ih =>
    obtain ⟨above, stops⟩ := seated_slots seated
    refine ⟨above, own e, ?_⟩
    rw [stops]
    exact ih
  | @struct base pathOf cursor next last stop f fs e members rest name d seated named found inner _
      inside ih =>
    obtain ⟨above, stops⟩ := seated_slots seated
    obtain ⟨count, known, space⟩ := seated_struct seated named
    have fits := Cursor.slot_le_slotsUsed (members_fill sound known found inner)
    have ends : e.slot + stop.slot ≤ e.slotBehind := by
      simp only [Entry.slotBehind, space]
      omega
    refine ⟨above, Scope.spread_mono inside ends, ?_⟩
    rw [stops]
    exact ih

section

variable {c : Catalog} {e : Entry}

theorem slotSpan_value {size : Nat} (space : e.space = .packed size) (placed : e.InPlace) :
    (c.assignment e).slotSpan = 1 ↔ size ≤ slotBytes := by
  simp only [Entry.InPlace, space] at placed
  have told : (c.assignment e).slotSpan = max 1 ((e.offset + size + slotBytes - 1) / slotBytes) := by
    simp only [Catalog.assignment, Assignment.slotSpan, space, Footprint.bytes]
  rw [told]
  simp only [slotBytes] at *
  omega

theorem slotSpan_whole {count : Nat} (space : e.space = .slots count) (placed : e.InPlace) :
    (c.assignment e).slotSpan = max 1 (min count largestSpan) := by
  simp only [Entry.InPlace, space] at placed
  have told : (c.assignment e).slotSpan =
      max 1 ((0 + min (count * slotBytes) largestSize + slotBytes - 1) / slotBytes) := by
    simp only [Catalog.assignment, Assignment.slotSpan, space, Footprint.bytes, placed]
  rw [told]
  simp only [slotBytes, largestSize, largestSpan, Numeral.limit64]
  omega

theorem location_value {size : Nat} (space : e.space = .packed size) (role : e.ty.role = .value)
    (placed : e.InPlace) (short : size ≤ slotBytes) :
    (c.assignment e).location =
      if size < slotBytes then
        toString e.slot ++ "[" ++ toString e.offset ++ ".." ++ toString (e.offset + size) ++ "]"
      else toString e.slot := by
  have one := (slotSpan_value (c := c) space placed).mpr short
  have told : (c.assignment e).size = size := by
    simp only [Catalog.assignment, space, Footprint.bytes]
  unfold Assignment.location
  rw [one, told]
  simp [Catalog.assignment, role]

theorem location_whole {count : Nat} (space : e.space = .slots count) (some_slots : 0 < count)
    (placed : e.InPlace) : (c.assignment e).location = rangeText e.slot (min count largestSpan) := by
  have told : (c.assignment e).size = min (count * slotBytes) largestSize := by
    simp only [Catalog.assignment, space, Footprint.bytes]
  have large : ¬ ((c.assignment e).role = .value ∧ (c.assignment e).size < slotBytes) := by
    rw [told]
    simp only [slotBytes, largestSize, Numeral.limit64]
    omega
  have span : (c.assignment e).slotSpan = min count largestSpan := by
    rw [slotSpan_whole space placed]
    simp only [largestSpan, Numeral.limit64, slotBytes]
    omega
  unfold Assignment.location
  rw [if_neg large, span]
  rfl

/-- What an assignment tells of the slots of its entry. -/
structure SlotsTold (c : Catalog) (e : Entry) : Prop where
  span_iff : (c.assignment e).slotSpan = e.space.slotsTaken ↔ e.space.Tellable
  value : ∀ size, e.space = .packed size → size ≤ slotBytes →
    (c.assignment e).location =
      if size < slotBytes then
        toString e.slot ++ "[" ++ toString e.offset ++ ".." ++ toString (e.offset + size) ++ "]"
      else toString e.slot
  whole : ∀ count, e.space = .slots count → 0 < count →
    (c.assignment e).slotSpan = min count largestSpan ∧
      (c.assignment e).location = rangeText e.slot (min count largestSpan)

theorem seated_told {slots : String → LayoutResult Nat} {base : Nat} {path : String}
    {ty : TypeRef} {cursor next : Cursor} (seated : Seated c slots base path ty cursor e next) :
    SlotsTold c e := by
  have placed := seated_inPlace seated
  constructor
  · cases space : e.space with
    | packed size => exact slotSpan_value space placed
    | slots count =>
      rw [slotSpan_whole space placed]
      have one := one_le_largestSpan
      have reckoned : max 1 (min count largestSpan) = count ↔ 0 < count ∧ count ≤ largestSpan := by
        constructor <;> intro told <;> omega
      exact reckoned
  · intro size space short
    have role := (footprint_role seated.measured).1 size space
    rw [← seated.ty_eq] at role
    exact location_value space role placed short
  · intro count space some_slots
    constructor
    · rw [slotSpan_whole space placed]
      simp only [largestSpan, Numeral.limit64, slotBytes]
      omega
    · exact location_whole space some_slots placed

/-- An assignment that is shown with several slots or is a base slot, and is no value larger than a
slot. -/
structure Wide (c : Catalog) (e : Entry) : Prop where
  fits : ∀ size, e.space = .packed size → size ≤ slotBytes
  shown : 1 < (c.assignment e).slotSpan ∨ (c.assignment e).role = .baseSlot

theorem wide_touches {slots : String → LayoutResult Nat} {base : Nat} {path : String}
    {ty : TypeRef} {cursor next : Cursor} (seated : Seated c slots base path ty cursor e next)
    (wide : Wide c e) {slot : Nat} (touched : (c.assignment e).Touches slot) :
    e.slot ≤ slot ∧ slot < e.slotBehind := by
  have placed := seated_inPlace seated
  have roles := footprint_role seated.measured
  rw [← seated.ty_eq] at roles
  cases space : e.space with
  | packed size =>
    have one := (slotSpan_value (c := c) space placed).mpr (wide.fits size space)
    have role := roles.1 size space
    rcases wide.shown with several | based
    · omega
    · exact absurd (role.symm.trans based) (by decide)
  | slots count =>
    have some_slots : 0 < count := by
      rcases wide.shown with several | based
      · rw [slotSpan_whole space placed] at several
        omega
      · have single := roles.2 based
        rw [space] at single
        cases single
        decide
    have first : (c.assignment e).slot = e.slot := rfl
    simp only [Assignment.Touches, slotSpan_whole space placed, first] at touched
    simp only [Entry.slotBehind, space]
    omega

end

/-- The slots that a layout tells are those that were reserved, unless there are too many of them. -/
structure SpanLaw (c : Catalog) (scope : Scope) : Prop where
  told : ∀ e ∈ scope.listed, SlotsTold c e
  numbered : ∀ e ∈ scope.listed, ∀ count, e.space = .slots count → e.slot + count < Numeral.limit64
  apart : ∀ i j a b, i ≠ j → scope.listed[i]? = some a → scope.listed[j]? = some b → Wide c a →
    Wide c b → ¬ scope.Inside i j → ¬ scope.Inside j i →
      ∀ slot, (c.assignment a).Touches slot → ¬ (c.assignment b).Touches slot

theorem span_law {c : Catalog} {scope : Scope} {low high : Nat}
    (told : ∀ e ∈ scope.listed, SlotsTold c e)
    (shown : ∀ e ∈ scope.listed, Wide c e → ∀ slot, (c.assignment e).Touches slot →
      e.slot ≤ slot ∧ slot < e.slotBehind)
    (spread : scope.Spread Entry.slot Entry.slotBehind low high) (numbered : high < Numeral.limit64) :
    SpanLaw c scope := by
  constructor
  · exact told
  · intro e mem count space
    have bounds := (Scope.spread_bounds spread e mem).2
    simp only [Entry.slotBehind, space] at bounds
    omega
  · intro i j a b distinct ha hb wideA wideB left right slot inA inB
    have slotsA := shown a (List.mem_of_getElem? ha) wideA slot inA
    have slotsB := shown b (List.mem_of_getElem? hb) wideB slot inB
    rcases Nat.lt_or_gt_of_ne distinct with order | order
    · have ends := Scope.spread_apart spread order right ha hb
      omega
    · have ends := Scope.spread_apart spread order left hb ha
      omega

/-- A layout tells the slots that were reserved for each of its assignments exactly when these can be
told. When the built-in types have sizes up to a slot, only slots that are too many cannot. -/
theorem reserved_slots_told (c : Catalog) (declarations : List Declaration) (l : Layout)
    (run : c.layout declarations = .ok l) :
    ∃ cursor scope, c.place declarations = .ok (cursor, scope) ∧
      l.assignments = scope.listed.map c.assignment ∧ SpanLaw c scope ∧
      (c.Sized → (∀ d ∈ declarations, d.ty.Sized) →
        ∀ e ∈ scope.listed, e.space.Tellable ↔ e.space.slotsTaken ≤ largestSpan) := by
  obtain ⟨cursor, scope, place, listed, _⟩ := Catalog.layout_placed run
  obtain ⟨sizes, measured, placed⟩ := Catalog.place_placed place
  have spread := placed_spread (Catalog.sizes_sound measured) placed
  have small := (Catalog.measureFields_slot (placed_measures placed "")).2 (by decide)
  refine ⟨cursor, scope, place, listed, ?_, ?_⟩
  · rw [Nat.zero_add, Nat.zero_add] at spread
    have shown := placed_seats (P := fun e => Wide c e → ∀ slot, (c.assignment e).Touches slot →
      e.slot ≤ slot ∧ slot < e.slotBehind) (fun seated wide _ => wide_touches seated wide) placed
    exact span_law (placed_seats seated_told placed) shown spread small
  · intro types declared e mem
    have filled := Catalog.sizes_filled types measured
    have sized := placed_forall (P := fun e => e.space.Sized ∧ 0 < e.space.extent) types
      (fun sized _ seated => ⟨Catalog.footprint_sized sized seated.measured,
        Catalog.footprint_filled filled sized seated.measured⟩) placed (stored_sized declared)
      (Nat.zero_le _) e mem
    cases space : e.space with
    | packed size =>
      rw [space] at sized
      exact iff_of_true sized.1.2 one_le_largestSpan
    | slots count =>
      rw [space] at sized
      have some_slots : 0 < count := Nat.pos_of_mul_pos_right sized.2
      exact and_iff_right some_slots

/-- As many whole slots as can be told, a wallet behind them, and a sequence. -/
def rowsDeclarations : List Declaration :=
  [⟨"paused", .elementary .bool, none, .mutable⟩,
    ⟨"rows", .fixedArray (.elementary (.uint 256)) 576460752303423488, none, .mutable⟩,
    ⟨"wallet", .struct "Wallet", none, .mutable⟩,
    ⟨"names", .dynamicArray (.elementary .string), none, .mutable⟩]

theorem rows_told :
    ∃ l, walletCatalog.layout rowsDeclarations = .ok l ∧
      l.assignments.map Assignment.location =
        ["0[0..1]", "1..=576460752303423488", "576460752303423489..=576460752303423491",
          "576460752303423489[0..20]", "576460752303423490..=576460752303423491",
          "576460752303423490[0..8]", "576460752303423491[0..25]", "576460752303423492"] ∧
      ∃ cursor scope, walletCatalog.place rowsDeclarations = .ok (cursor, scope) ∧
        l.assignments = scope.listed.map walletCatalog.assignment ∧ SpanLaw walletCatalog scope ∧
        (walletCatalog.Sized → (∀ d ∈ rowsDeclarations, d.ty.Sized) →
          ∀ e ∈ scope.listed, e.space.Tellable ↔ e.space.slotsTaken ≤ largestSpan) :=
  ⟨_, rfl, by decide +kernel, reserved_slots_told walletCatalog rowsDeclarations _ rfl⟩

def longRows : Declaration :=
  ⟨"rows", .fixedArray (.elementary (.uint 256)) 1152921504606846976, none, .mutable⟩

def longRowsEntry : Entry :=
  ⟨"rows", longRows.ty, .slots 1152921504606846976, 0, 0⟩

theorem long_rows_cut :
    ¬ ∀ (c : Catalog) (declarations : List Declaration) (l : Layout),
      c.layout declarations = .ok l → ∃ cursor scope,
        c.place declarations = .ok (cursor, scope) ∧ l.assignments = scope.listed.map c.assignment ∧
        ∀ e ∈ scope.listed, (c.assignment e).slotSpan = e.space.slotsTaken := by
  intro right
  obtain ⟨cursor, scope, place, _, told⟩ := right Catalog.empty [longRows] _ rfl
  have placed : Catalog.empty.place [longRows] =
      .ok (⟨1152921504606846976, 0⟩, .entry longRowsEntry .empty .empty) := rfl
  obtain ⟨_, rfl⟩ := Prod.mk.inj (Except.ok.inj (placed.symm.trans place))
  have span := told longRowsEntry List.mem_cons_self
  have placed : longRowsEntry.InPlace := rfl
  rw [slotSpan_whole rfl placed] at span
  exact absurd span (by decide)

end ContractRegistry
