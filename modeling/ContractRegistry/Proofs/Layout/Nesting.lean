import ContractRegistry.Proofs.Layout.Placed

/-!
No two assignments share a byte, unless one is a struct and the other lies in it.

The entries of a scope lie one behind the other, and what is inside a struct lies in the bytes of the
struct. So of two entries in the order of the list the first ends before the second begins, or is a
struct that has the second inside.
-/
namespace ContractRegistry

namespace Entry

def firstByte (e : Entry) : Nat :=
  e.slot * slotBytes + e.offset

/-- The byte after the last, even when there are more than can be told. -/
def endByte (e : Entry) : Nat :=
  e.firstByte + e.space.extent

end Entry

namespace Catalog

theorem assignment_endByte_le (c : Catalog) (e : Entry) : (c.assignment e).endByte ≤ e.endByte :=
  Nat.add_le_add_left e.space.bytes_le_extent e.firstByte

theorem assignment_endByte_eq {c : Catalog} {e : Entry} (told : (c.assignment e).size ≠ largestSize) :
    (c.assignment e).endByte = e.endByte :=
  congrArg (e.firstByte + ·) (Footprint.bytes_eq_extent told)

end Catalog

namespace Scope

/-- `s.Inside i j` says that the entry at position `i` of the list was placed while the members of the
struct at position `j` were, at any depth. -/
inductive Inside : Scope → Nat → Nat → Prop where
  | own {e : Entry} {members rest : Scope} {i : Nat} (member : i < members.listed.length) :
      Inside (.entry e members rest) (i + 1) 0
  | deeper {e : Entry} {members rest : Scope} {i j : Nat} (within : Inside members i j) :
      Inside (.entry e members rest) (i + 1) (j + 1)
  | behind {e : Entry} {members rest : Scope} {i j : Nat} (within : Inside rest i j) :
      Inside (.entry e members rest) (members.listed.length + i + 1) (members.listed.length + j + 1)

theorem inside_lt {s : Scope} {i j : Nat} (inside : s.Inside i j) : j < i ∧ i < s.listed.length := by
  induction inside with
  | own member =>
    simp only [listed, List.cons_append, List.length_cons, List.length_append]
    omega
  | deeper within ih =>
    simp only [listed, List.cons_append, List.length_cons, List.length_append]
    omega
  | behind within ih =>
    simp only [listed, List.cons_append, List.length_cons, List.length_append]
    omega

theorem listed_member (e : Entry) {members : Scope} (rest : Scope) {i : Nat}
    (member : i < members.listed.length) :
    (Scope.entry e members rest).listed[i + 1]? = members.listed[i]? := by
  simp only [listed, List.cons_append, List.getElem?_cons_succ]
  exact List.getElem?_append_left member

theorem listed_behind (e : Entry) (members rest : Scope) (i : Nat) :
    (Scope.entry e members rest).listed[members.listed.length + i + 1]? = rest.listed[i]? := by
  simp only [listed, List.cons_append, List.getElem?_cons_succ]
  rw [List.getElem?_append_right (by omega), Nat.add_sub_cancel_left]

section

variable {first last : Entry → Nat}

/-- The entries lie in order between two bounds, each from its `first` to its `last`, and what is inside
an entry lies between those two. -/
def Spread (first last : Entry → Nat) : Scope → Nat → Nat → Prop
  | .empty, low, high => low ≤ high
  | .entry e members rest, low, high =>
    low ≤ first e ∧ members.Spread first last (first e) (last e) ∧ rest.Spread first last (last e) high

theorem spread_le {s : Scope} {low high : Nat} (spread : s.Spread first last low high) : low ≤ high := by
  induction s generalizing low high with
  | empty => exact spread
  | entry e members rest ihm ihr =>
    obtain ⟨above, inside, behind⟩ := spread
    have own := ihm inside
    have later := ihr behind
    omega

theorem spread_bounds {s : Scope} {low high : Nat} (spread : s.Spread first last low high) :
    ∀ e ∈ s.listed, low ≤ first e ∧ last e ≤ high := by
  induction s generalizing low high with
  | empty => simp [listed]
  | entry e members rest ihm ihr =>
    obtain ⟨above, inside, behind⟩ := spread
    have own := spread_le inside
    have later := spread_le behind
    intro a mem
    simp only [listed, List.cons_append, List.mem_cons, List.mem_append] at mem
    rcases mem with rfl | mem | mem
    · exact ⟨above, later⟩
    · have bounds := ihm inside a mem
      omega
    · have bounds := ihr behind a mem
      omega

theorem spread_mono {s : Scope} {low high higher : Nat} (spread : s.Spread first last low high)
    (more : high ≤ higher) : s.Spread first last low higher := by
  induction s generalizing low with
  | empty => exact Nat.le_trans spread more
  | entry e members rest _ ih =>
    obtain ⟨above, inside, behind⟩ := spread
    exact ⟨above, inside, ih behind⟩

/-- Of two entries in the order of the list the first ends before the second begins, unless the second
is inside the first. -/
theorem spread_apart {s : Scope} {low high : Nat} (spread : s.Spread first last low high) {i j : Nat}
    (order : i < j) (outside : ¬ s.Inside j i) {a b : Entry} (ha : s.listed[i]? = some a)
    (hb : s.listed[j]? = some b) : last a ≤ first b := by
  -- Either both are among the members of the first entry, or both behind them, or the second is behind
  -- all that the first is in.
  induction s generalizing low high i j with
  | empty => simp [listed] at ha
  | entry e members rest ihm ihr =>
    obtain ⟨_, within, behind⟩ := spread
    obtain ⟨q, rfl⟩ : ∃ q, j = q + 1 := ⟨j - 1, by omega⟩
    by_cases secondInner : q < members.listed.length
    · rw [listed_member e rest secondInner] at hb
      cases i with
      | zero => exact absurd (Inside.own secondInner) outside
      | succ p =>
        rw [listed_member e rest (by omega)] at ha
        exact ihm within (by omega) (fun inside => outside (.deeper inside)) ha hb
    · obtain ⟨k, rfl⟩ : ∃ k, q = members.listed.length + k := ⟨q - members.listed.length, by omega⟩
      rw [listed_behind] at hb
      have second := (spread_bounds behind b (List.mem_of_getElem? hb)).1
      cases i with
      | zero =>
        obtain rfl : e = a := Option.some.inj ha
        exact second
      | succ p =>
        by_cases firstInner : p < members.listed.length
        · rw [listed_member e rest firstInner] at ha
          have before := (spread_bounds within a (List.mem_of_getElem? ha)).2
          omega
        · obtain ⟨l, rfl⟩ : ∃ l, p = members.listed.length + l :=
            ⟨p - members.listed.length, by omega⟩
          rw [listed_behind] at ha
          exact ihr behind (by omega) (fun inside => outside (.behind inside)) ha hb

end

/-- The entries lie in order between two bytes, and what is inside a struct lies in its bytes. What is
no struct has nothing inside. -/
def Nested : Scope → Nat → Nat → Prop
  | .empty, low, high => low ≤ high
  | .entry e members rest, low, high =>
    low ≤ e.firstByte ∧ ((∃ name, e.ty = .struct name) ∨ members = .empty) ∧
      members.Nested e.firstByte e.endByte ∧ rest.Nested e.endByte high

theorem nested_spread {s : Scope} {low high : Nat} (nested : s.Nested low high) :
    s.Spread Entry.firstByte Entry.endByte low high := by
  induction s generalizing low high with
  | empty => exact nested
  | entry e members rest ihm ihr =>
    obtain ⟨above, _, inside, behind⟩ := nested
    exact ⟨above, ihm inside, ihr behind⟩

theorem nested_bounds {s : Scope} {low high : Nat} (nested : s.Nested low high) :
    ∀ e ∈ s.listed, low ≤ e.firstByte ∧ e.endByte ≤ high :=
  spread_bounds (nested_spread nested)

theorem nested_mono {s : Scope} {low high higher : Nat} (nested : s.Nested low high)
    (more : high ≤ higher) : s.Nested low higher := by
  induction s generalizing low with
  | empty => exact Nat.le_trans nested more
  | entry e members rest _ ih =>
    obtain ⟨above, flat, inside, behind⟩ := nested
    exact ⟨above, flat, inside, ih behind⟩

theorem inside_contained {s : Scope} {low high : Nat} (nested : s.Nested low high) {i j : Nat}
    (inside : s.Inside i j) {a b : Entry} (ha : s.listed[i]? = some a) (hb : s.listed[j]? = some b) :
    (∃ name, b.ty = .struct name) ∧ b.firstByte ≤ a.firstByte ∧ a.endByte ≤ b.endByte := by
  induction inside generalizing low high with
  | @own e members rest i member =>
    obtain ⟨_, flat, within, _⟩ := nested
    obtain rfl : e = b := Option.some.inj hb
    rw [listed_member e rest member] at ha
    refine ⟨?_, nested_bounds within a (List.mem_of_getElem? ha)⟩
    rcases flat with struct | none_inside
    · exact struct
    · simp [none_inside, listed] at member
  | @deeper e members rest i j within ih =>
    have := inside_lt within
    rw [listed_member e rest this.2] at ha
    rw [listed_member e rest (by omega)] at hb
    exact ih nested.2.2.1 ha hb
  | @behind e members rest i j within ih =>
    rw [listed_behind] at ha hb
    exact ih nested.2.2.2 ha hb

end Scope

variable {c : Catalog}

theorem seated_bytes {slots : String → LayoutResult Nat} {base : Nat} {path : String}
    {ty : TypeRef} {cursor next : Cursor} {e : Entry} (within : cursor.offset ≤ slotBytes)
    (seated : Seated c slots base path ty cursor e next) :
    base * slotBytes + cursor.position ≤ e.firstByte ∧
      e.endByte = base * slotBytes + next.position := by
  obtain ⟨place, allotted, slot, offset⟩ := seated.allotted
  have moved := Cursor.allot_position within allotted
  simp only [Entry.endByte, Entry.firstByte, slot, offset, Nat.add_mul]
  simp only [Cursor.position] at moved ⊢
  omega

theorem placed_nested {sizes : Catalog.Sizes} (sound : sizes.Sound c) (types : c.Sized) {base : Nat}
    {pathOf : String → String} {cursor last : Cursor} {fields : List Field} {scope : Scope}
    (placed : Placed c sizes.slots base pathOf cursor fields last scope)
    (sized : ∀ f ∈ fields, f.ty.Sized) (within : cursor.offset ≤ slotBytes) :
    scope.Nested (base * slotBytes + cursor.position) (base * slotBytes + last.position) ∧
      last.offset ≤ slotBytes := by
  induction placed with
  | done => exact ⟨Nat.le_refl _, within⟩
  | plain seated _ _ ih =>
    have first := sized _ List.mem_cons_self
    obtain ⟨above, stops⟩ := seated_bytes within seated
    obtain ⟨behind, bounded⟩ :=
      ih (fun f mem => sized f (List.mem_cons_of_mem _ mem)) (seated_in_slot first seated)
    rw [← stops] at behind
    exact ⟨⟨above, Or.inr rfl, Nat.le_add_right _ _, behind⟩, bounded⟩
  | @struct base pathOf cursor next last stop f fs e members rest name d seated named found inner _
      inside ih =>
    have first := sized _ List.mem_cons_self
    obtain ⟨above, stops⟩ := seated_bytes within seated
    obtain ⟨behind, bounded⟩ :=
      ih (fun f mem => sized f (List.mem_cons_of_mem _ mem)) (seated_in_slot first seated)
    rw [← stops] at behind
    obtain ⟨contained, short⟩ := inside (fields_sized types found) (Nat.zero_le _)
    -- The members are placed from the first byte of the struct, and take no more slots than it has.
    obtain ⟨count, known, space⟩ := seated_struct seated named
    have aligned : e.offset = 0 := seated_aligned seated (by rw [← seated.ty_eq, named]; rfl)
    have fits := Cursor.position_le_slotsUsed short (members_fill sound known found inner)
    have begins : e.slot * slotBytes + Cursor.start.position = e.firstByte := by
      simp [Entry.firstByte, aligned]
    have ends : e.slot * slotBytes + stop.position ≤ e.endByte := by
      simp only [Entry.endByte, Entry.firstByte, space, Footprint.extent]
      omega
    rw [begins] at contained
    exact ⟨⟨above, Or.inl ⟨name, named⟩, Scope.nested_mono contained ends, behind⟩, bounded⟩

theorem seated_value {slots : String → LayoutResult Nat} {base : Nat} {path : String}
    {ty : TypeRef} {cursor next : Cursor} {e : Entry} (sized : ty.Sized)
    (seated : Seated c slots base path ty cursor e next) (size : Nat)
    (packs : e.ty.packedSize? = some size) :
    e.space = .packed size ∧ e.offset + size ≤ slotBytes := by
  obtain ⟨place, allotted, _, offset⟩ := seated.allotted
  rw [seated.ty_eq] at packs
  have space := (Catalog.footprint_packed_iff seated.measured size).mpr packs
  have bounded := seated_in_slot sized seated
  rw [space] at allotted
  rw [(Cursor.allot_packed allotted).2] at bounded
  rw [offset]
  exact ⟨space, bounded⟩

/-- Two assignments of a scope share no byte, unless one is a struct and the other was placed with its
members; then the other lies in it, as far as the size of the struct can be told. No value goes over
the end of its slot. -/
structure NestingLaw (c : Catalog) (scope : Scope) : Prop where
  contained : ∀ i j a b, (scope.listed.map c.assignment)[i]? = some a →
    (scope.listed.map c.assignment)[j]? = some b → scope.Inside i j →
      b.role = .composite ∧
        (b.size ≠ largestSize → b.firstByte ≤ a.firstByte ∧ a.endByte ≤ b.endByte)
  apart : ∀ i j a b, i ≠ j → (scope.listed.map c.assignment)[i]? = some a →
    (scope.listed.map c.assignment)[j]? = some b → ¬ scope.Inside i j → ¬ scope.Inside j i →
      a.endByte ≤ b.firstByte ∨ b.endByte ≤ a.firstByte
  inSlot : ∀ e ∈ scope.listed, ∀ size, e.ty.packedSize? = some size →
    (c.assignment e).size = size ∧ (c.assignment e).offset + size ≤ slotBytes

theorem listed_assignment {scope : Scope} {i : Nat} {a : Assignment}
    (mem : (scope.listed.map c.assignment)[i]? = some a) :
    ∃ e, scope.listed[i]? = some e ∧ c.assignment e = a := by
  rw [List.getElem?_map, Option.map_eq_some_iff] at mem
  exact mem

theorem stored_sized {declarations : List Declaration} (declared : ∀ d ∈ declarations, d.ty.Sized) :
    ∀ f ∈ Catalog.stored declarations, f.ty.Sized := by
  intro f mem
  obtain ⟨d, kept, rfl⟩ := List.mem_map.mp mem
  exact declared d (List.mem_filter.mp kept).1

theorem nested_law {scope : Scope} {low high : Nat} (nested : scope.Nested low high)
    (values : ∀ e ∈ scope.listed, ∀ size, e.ty.packedSize? = some size →
      e.space = .packed size ∧ e.offset + size ≤ slotBytes) : NestingLaw c scope where
  contained := by
    intro i j a b ha hb inside
    obtain ⟨ea, atA, rfl⟩ := listed_assignment ha
    obtain ⟨eb, atB, rfl⟩ := listed_assignment hb
    obtain ⟨⟨name, named⟩, first, last⟩ := Scope.inside_contained nested inside atA atB
    refine ⟨by simp [Catalog.assignment, named, TypeRef.role], fun told => ⟨first, ?_⟩⟩
    rw [Catalog.assignment_endByte_eq told]
    exact Nat.le_trans (c.assignment_endByte_le ea) last
  apart := by
    intro i j a b distinct ha hb left right
    obtain ⟨ea, atA, rfl⟩ := listed_assignment ha
    obtain ⟨eb, atB, rfl⟩ := listed_assignment hb
    rcases Nat.lt_or_gt_of_ne distinct with order | order
    · have ends := Scope.spread_apart (Scope.nested_spread nested) order right atA atB
      exact Or.inl (Nat.le_trans (c.assignment_endByte_le ea) ends)
    · have ends := Scope.spread_apart (Scope.nested_spread nested) order left atB atA
      exact Or.inr (Nat.le_trans (c.assignment_endByte_le eb) ends)
  inSlot := by
    intro e mem size packs
    obtain ⟨space, bounded⟩ := values e mem size packs
    exact ⟨by simp [Catalog.assignment, space, Footprint.bytes], bounded⟩

/-- The assignments of a layout are those of a scope in which nothing overlaps, unless it is nested. -/
theorem assignments_disjoint_or_nested (c : Catalog) (declarations : List Declaration) (l : Layout)
    (types : c.Sized) (declared : ∀ d ∈ declarations, d.ty.Sized)
    (run : c.layout declarations = .ok l) :
    ∃ cursor scope, c.place declarations = .ok (cursor, scope) ∧
      l.assignments = scope.listed.map c.assignment ∧ NestingLaw c scope := by
  obtain ⟨cursor, scope, place, listed, _⟩ := Catalog.layout_placed run
  obtain ⟨sizes, measured, placed⟩ := Catalog.place_placed place
  have sized := stored_sized declared
  have nested := (placed_nested (Catalog.sizes_sound measured) types placed sized (Nat.zero_le _)).1
  have values := placed_forall types (fun sized _ seated => seated_value sized seated) placed sized
    (Nat.zero_le _)
  exact ⟨cursor, scope, place, listed, nested_law nested values⟩

/-- A wallet has limits inside, and limits have two values that do not share a slot. -/
def walletCatalog : Catalog :=
  ⟨[⟨"Wallet", [⟨"owner", .elementary .address⟩, ⟨"limits", .struct "Limits"⟩]⟩,
    ⟨"Limits", [⟨"low", .elementary (.uint 64)⟩, ⟨"high", .elementary (.uint 200)⟩]⟩], []⟩

def walletDeclarations : List Declaration :=
  [⟨"paused", .elementary .bool, none, .mutable⟩, ⟨"wallet", .struct "Wallet", none, .mutable⟩,
    ⟨"count", .elementary (.uint 8), none, .mutable⟩]

theorem walletCatalog_sized : walletCatalog.Sized := by
  simp [Catalog.Sized, walletCatalog, TypeRef.Sized, Elementary.Sized, Elementary.packedSize?,
    addressBytes, slotBytes]

theorem walletDeclarations_sized : ∀ d ∈ walletDeclarations, d.ty.Sized := by
  simp [walletDeclarations, TypeRef.Sized, Elementary.Sized, Elementary.packedSize?, slotBytes]

theorem wallet_assignments_nested :
    ∃ l, walletCatalog.layout walletDeclarations = .ok l ∧ l.slotsUsed = 5 ∧
      ∃ cursor scope, walletCatalog.place walletDeclarations = .ok (cursor, scope) ∧
        l.assignments = scope.listed.map walletCatalog.assignment ∧ NestingLaw walletCatalog scope :=
  ⟨_, rfl, by decide, assignments_disjoint_or_nested walletCatalog walletDeclarations _
    walletCatalog_sized walletDeclarations_sized rfl⟩

end ContractRegistry
