import ContractRegistry.Proofs.Layout.Packing

/-!
A struct in place is laid out as if its members were declared alone.

How a scope is placed depends on its first slot and on the path in front of its names in one way only:
each slot is so much further and each name is behind the path. So the members of a struct, wherever it
is met, are those of the layout of its fields as declarations, moved to the struct. That layout exists:
the fields were checked with the catalog, and they were placed once in the struct.
-/
namespace ContractRegistry

def Field.declaration (f : Field) : Declaration :=
  ⟨f.name, f.ty, none, .mutable⟩

def StructDef.declarations (d : StructDef) : List Declaration :=
  d.fields.map Field.declaration

def Entry.moved (base : Nat) (front : String) (e : Entry) : Entry :=
  { e with path := front ++ e.path, slot := base + e.slot }

def Assignment.moved (base : Nat) (path : String) (a : Assignment) : Assignment :=
  { a with name := Catalog.memberPath path a.name, slot := base + a.slot }

namespace Scope

def moved (base : Nat) (front : String) : Scope → Scope
  | .empty => .empty
  | .entry e members rest =>
    .entry (e.moved base front) (members.moved base front) (rest.moved base front)

def height : Scope → Nat
  | .empty => 0
  | .entry e members rest =>
    max (if e.ty.role = .composite then members.height + 1 else 0) rest.height

theorem listed_moved (base : Nat) (front : String) (s : Scope) :
    (s.moved base front).listed = s.listed.map (Entry.moved base front) := by
  induction s with
  | empty => rfl
  | entry e members rest ihm ihr => simp [moved, listed, ihm, ihr]

theorem height_moved (base : Nat) (front : String) (s : Scope) :
    (s.moved base front).height = s.height := by
  induction s with
  | empty => rfl
  | entry e members rest ihm ihr => simp only [moved, height, ihm, ihr, Entry.moved]

theorem length_inner (s : Scope) : s.inner.length = s.listed.length := by
  induction s with
  | empty => rfl
  | entry e members rest ihm ihr => simp [inner, listed, ihm, ihr]

/-- What is inside an entry is listed right behind it, and nothing else is inside. -/
structure Leads (s : Scope) (i : Nat) (e : Entry) (members : Scope) : Prop where
  entry : s.listed[i]? = some e
  behind : ∃ after, s.listed.drop (i + 1) = members.listed ++ after
  inside_iff : ∀ k, s.Inside k i ↔ i < k ∧ k ≤ i + members.listed.length

theorem inside_member_iff {e : Entry} {members rest : Scope} {k i : Nat}
    (member : i < members.listed.length) :
    (Scope.entry e members rest).Inside k (i + 1) ↔ ∃ j, k = j + 1 ∧ members.Inside j i := by
  constructor
  · intro inside
    generalize at_entry : i + 1 = position at inside
    cases inside with
    | own _ => contradiction
    | @deeper _ _ _ j _ within =>
      obtain rfl := Nat.succ.inj at_entry
      exact ⟨j, rfl, within⟩
    | behind within => omega
  · rintro ⟨j, rfl, within⟩
    exact .deeper within

theorem inside_behind_iff {e : Entry} {members rest : Scope} {k i : Nat} :
    (Scope.entry e members rest).Inside k (members.listed.length + i + 1) ↔
      ∃ j, k = members.listed.length + j + 1 ∧ rest.Inside j i := by
  constructor
  · intro inside
    generalize at_entry : members.listed.length + i + 1 = position at inside
    cases inside with
    | own _ => contradiction
    | deeper within =>
      have := inside_lt within
      omega
    | @behind _ _ _ j q within =>
      obtain rfl : q = i := by omega
      exact ⟨j, rfl, within⟩
  · rintro ⟨j, rfl, within⟩
    exact .behind within

theorem inside_first_iff {e : Entry} {members rest : Scope} {k : Nat} :
    (Scope.entry e members rest).Inside k 0 ↔ 0 < k ∧ k ≤ members.listed.length := by
  constructor
  · intro inside
    cases inside with
    | own member => omega
  · rintro ⟨positive, within⟩
    obtain ⟨j, rfl⟩ : ∃ j, k = j + 1 := ⟨k - 1, by omega⟩
    exact .own (by omega)

theorem inner_leads {s : Scope} {i : Nat} {e : Entry} {members : Scope}
    (opened : s.inner[i]? = some (e, members)) : s.Leads i e members := by
  induction s generalizing i with
  | empty => simp [inner] at opened
  | entry first within rest ihm ihr =>
    cases i with
    | zero =>
      obtain ⟨rfl, rfl⟩ := Prod.mk.inj (Option.some.inj opened)
      exact ⟨rfl, ⟨rest.listed, rfl⟩, fun k => by simpa using inside_first_iff⟩
    | succ p =>
      simp only [inner, List.cons_append, List.getElem?_cons_succ] at opened
      by_cases member : p < within.listed.length
      · rw [List.getElem?_append_left (by rw [length_inner]; exact member)] at opened
        obtain ⟨entry, ⟨after, behind⟩, inside⟩ := ihm opened
        refine ⟨by rw [listed_member first rest member]; exact entry, ⟨after ++ rest.listed, ?_⟩, ?_⟩
        · simp only [listed, List.cons_append, List.drop_succ_cons]
          rw [List.drop_append_of_le_length (by omega), behind, List.append_assoc]
        · intro k
          rw [inside_member_iff member]
          constructor
          · rintro ⟨j, rfl, deeper⟩
            have := (inside j).mp deeper
            omega
          · rintro ⟨above, below⟩
            exact ⟨k - 1, by omega, (inside (k - 1)).mpr (by omega)⟩
      · obtain ⟨q, rfl⟩ : ∃ q, p = within.listed.length + q := ⟨p - within.listed.length, by omega⟩
        rw [List.getElem?_append_right (by rw [length_inner]; omega), length_inner,
          Nat.add_sub_cancel_left] at opened
        obtain ⟨entry, ⟨after, behind⟩, inside⟩ := ihr opened
        refine ⟨by rw [listed_behind]; exact entry, ⟨after, ?_⟩, ?_⟩
        · simp only [listed, List.cons_append, List.drop_succ_cons]
          rw [Nat.add_assoc, List.drop_append, List.drop_eq_nil_of_le (by omega), List.nil_append,
            Nat.add_sub_cancel_left, behind]
        · intro k
          rw [inside_behind_iff]
          constructor
          · rintro ⟨j, rfl, deeper⟩
            have := (inside j).mp deeper
            omega
          · rintro ⟨above, below⟩
            exact ⟨k - (within.listed.length + 1), by omega, (inside _).mpr (by omega)⟩

end Scope

theorem role_composite_iff {ty : TypeRef} : ty.role = .composite ↔ ∃ name, ty = .struct name := by
  cases ty with
  | elementary kind => cases kind <;> simp [TypeRef.role, Elementary.isDynamic]
  | _ => simp [TypeRef.role]

namespace Catalog

variable {c : Catalog} {slots : String → LayoutResult Nat}

theorem stored_declarations (d : StructDef) : stored d.declarations = d.fields := by
  have kept : d.declarations.filter Declaration.isStored = d.declarations := by
    simp [StructDef.declarations, Field.declaration, Declaration.isStored]
  rw [stored, kept]
  simp [StructDef.declarations, Field.declaration, Declaration.field, Function.comp_def]

theorem placeFields_height {inside : String → Nat → String → LayoutResult Scope} {depth : Nat}
    (structs : ∀ name base path members, inside name base path = .ok members → members.height < depth)
    {base : Nat} {pathOf : String → String} {fields : List Field} {cursor last : Cursor}
    {scope : Scope} (run : c.placeFields slots inside base pathOf cursor fields = .ok (last, scope)) :
    scope.height ≤ depth := by
  induction fields generalizing cursor scope with
  | nil =>
    obtain ⟨_, rfl⟩ := Prod.mk.inj (Except.ok.inj run)
    exact Nat.zero_le depth
  | cons f fs ih =>
    obtain ⟨e, next, members, rest, _, opened, behind, rfl⟩ := placeFields_cons.mp run
    have later := ih behind
    simp only [Scope.height]
    split
    · rename_i composite
      obtain ⟨name, named⟩ := role_composite_iff.mp composite
      have inner := structs _ _ _ _ ((opens_struct named).mp opened)
      omega
    · omega

theorem placeStruct_height {depth : Nat} {name : String} {base : Nat} {path : String} {members : Scope}
    (run : c.placeStruct slots depth name base path = .ok members) : members.height < depth := by
  induction depth generalizing name base path members with
  | zero => contradiction
  | succ depth ih =>
    simp only [placeStruct] at run
    split at run
    · contradiction
    · obtain ⟨⟨_, scope⟩, placed, eq⟩ := bind_eq_ok.mp run
      obtain rfl := Except.ok.inj eq
      exact Nat.lt_succ_of_le (placeFields_height (fun _ _ _ _ => ih) placed)

theorem placed_runs {base : Nat} {pathOf : String → String} {cursor last : Cursor}
    {fields : List Field} {scope : Scope} (placed : Placed c slots base pathOf cursor fields last scope)
    {depth : Nat} (enough : scope.height ≤ depth) :
    c.placeFields slots (c.placeStruct slots depth) base pathOf cursor fields = .ok (last, scope) := by
  induction placed generalizing depth with
  | done => rfl
  | @plain base pathOf cursor next last f fs e rest seated flat _ ih =>
    simp only [Scope.height] at enough
    exact placeFields_cons.mpr ⟨e, next, .empty, rest, seated, (opens_plain flat).mpr rfl,
      ih (by omega), rfl⟩
  | @struct base pathOf cursor next last stop f fs e members rest name d seated named found _ _ inner ih =>
    simp only [Scope.height, role_composite_iff.mpr ⟨name, named⟩, ↓reduceIte] at enough
    obtain ⟨depth, rfl⟩ : ∃ fewer, depth = fewer + 1 := ⟨depth - 1, by omega⟩
    have opened : c.placeStruct slots (depth + 1) name e.slot e.path = .ok members := by
      simp only [placeStruct, found]
      exact bind_eq_ok.mpr ⟨(stop, members), inner (by omega), rfl⟩
    exact placeFields_cons.mpr ⟨e, next, members, rest, seated, (opens_struct named).mpr opened,
      ih (by omega), rfl⟩

theorem seated_moved {base base' shift : Nat} {front path : String} {ty : TypeRef}
    {cursor next : Cursor} {e : Entry} (seated : Seated c slots base (front ++ path) ty cursor e next)
    (further : base = shift + base') :
    ∃ e', e = e'.moved shift front ∧ Seated c slots base' path ty cursor e' next := by
  obtain ⟨path_eq, ty_eq, measured, ⟨place, allotted, slot_eq, offset_eq⟩, small⟩ := seated
  refine ⟨⟨path, ty, e.space, base' + place.slot, place.offset⟩, ?_, rfl, rfl, ?_, ?_, ?_⟩
  · cases e
    simp_all [Entry.moved, Nat.add_assoc]
  · exact footprint_extends (extends_refl slots) measured path
  · exact ⟨place, Cursor.allot_any_path allotted path, rfl, rfl⟩
  · simp only
    omega

/-- A scope with its base moved back and the front of its paths left off is placed in the same way. -/
theorem placed_moved {base : Nat} {pathOf : String → String} {cursor last : Cursor}
    {fields : List Field} {scope : Scope} (placed : Placed c slots base pathOf cursor fields last scope)
    {base' shift : Nat} {front : String} {pathOf' : String → String} (further : base = shift + base')
    (behind : ∀ name, pathOf name = front ++ pathOf' name) :
    ∃ scope', scope = scope'.moved shift front ∧ Placed c slots base' pathOf' cursor fields last scope' := by
  induction placed generalizing base' pathOf' with
  | done base pathOf cursor => exact ⟨.empty, rfl, .done base' pathOf' cursor⟩
  | plain seated flat _ ih =>
    rw [behind] at seated
    obtain ⟨e', rfl, seated'⟩ := seated_moved seated further
    obtain ⟨rest', rfl, tail'⟩ := ih further behind
    exact ⟨.entry e' .empty rest', rfl, .plain seated' flat tail'⟩
  | struct seated named found _ _ inner ih =>
    rw [behind] at seated
    obtain ⟨e', rfl, seated'⟩ := seated_moved seated further
    obtain ⟨rest', rfl, tail'⟩ := ih further behind
    -- The members begin at the slot of the struct and have its path in front, so they move with it.
    have under : ∀ name, memberPath (e'.moved shift front).path name = front ++ memberPath e'.path name := by
      intro name
      simp only [memberPath, Entry.moved, String.append_assoc]
    have begins : (e'.moved shift front).slot = shift + e'.slot := rfl
    obtain ⟨members', rfl, inside'⟩ := inner begins under
    exact ⟨.entry e' members' rest', rfl, .struct seated' named found inside' tail'⟩

theorem seated_measured {base : Nat} {path : String} {ty : TypeRef} {cursor next : Cursor} {e : Entry}
    (seated : Seated c slots base path ty cursor e next) : c.footprint slots e.path e.ty = .ok e.space := by
  rw [seated.path_eq, seated.ty_eq]
  exact seated.measured

theorem placed_inner_height {base : Nat} {pathOf : String → String} {cursor last : Cursor}
    {fields : List Field} {scope members : Scope} {e : Entry} {name : String}
    (placed : Placed c slots base pathOf cursor fields last scope) (opened : (e, members) ∈ scope.inner)
    (named : e.ty = .struct name) : members.height < scope.height := by
  induction placed with
  | done => simp [Scope.inner] at opened
  | plain _ flat _ ih =>
    simp only [Scope.inner, List.cons_append, List.nil_append, List.mem_cons] at opened
    simp only [Scope.height]
    rcases opened with same | opened
    · obtain ⟨rfl, rfl⟩ := Prod.mk.inj same
      exact absurd named (flat name)
    · have := ih opened
      omega
  | struct _ known _ _ _ inner ih =>
    simp only [Scope.inner, List.cons_append, List.mem_cons, List.mem_append] at opened
    simp only [Scope.height, role_composite_iff.mpr ⟨_, known⟩, ↓reduceIte]
    rcases opened with same | opened | opened
    · obtain ⟨rfl, rfl⟩ := Prod.mk.inj same
      omega
    · have := inner opened
      omega
    · have := ih opened
      omega

theorem sizes_members {sizes : Sizes} (run : c.sizes = .ok sizes) :
    ∀ d ∈ c.structs, ∀ f ∈ d.fields, ∀ name, f.ty.Mentions name → c.Registered name := by
  obtain ⟨order, valid, _⟩ := bind_eq_ok.mp run
  exact checkStructs_eq_ok.mp (validate_eq_ok.mp (orFail_eq_ok.mp valid)).1

theorem assignment_moved (c : Catalog) (base : Nat) (path : String) (e : Entry) :
    c.assignment (e.moved base (path ++ ".")) = (c.assignment e).moved base path := rfl

end Catalog

open Catalog

/-- The struct at position `i` of a layout has the members of its own layout inside, each moved to the
slot of the struct and named under it, and the size of its own layout. -/
structure StandsAlone (c : Catalog) (l : Layout) (scope : Scope) (i : Nat) (e : Entry) (d : StructDef)
    (own : Layout) : Prop where
  laidOut : c.layout d.declarations = .ok own
  members : (l.assignments.drop (i + 1)).take own.assignments.length =
    own.assignments.map (Assignment.moved e.slot e.path)
  inside_iff : ∀ k, scope.Inside k i ↔ i < k ∧ k ≤ i + own.assignments.length
  size : (c.assignment e).size = min (own.slotsUsed * slotBytes) largestSize

theorem standsAlone_of_placed {c : Catalog} {sizes : Sizes} (measured : c.sizes = .ok sizes)
    {base : Nat} {pathOf : String → String} {fields : List Field} {cursor last : Cursor} {scope : Scope}
    (placed : Placed c sizes.slots base pathOf cursor fields last scope)
    (shallow : scope.height ≤ c.structs.length) {l : Layout}
    (listed : l.assignments = scope.listed.map c.assignment) {i : Nat} {e : Entry} {name : String}
    (entry : scope.listed[i]? = some e) (named : e.ty = .struct name) :
    ∃ d own, c.struct? name = some d ∧ StandsAlone c l scope i e d own := by
  have position : i < scope.inner.length := by
    rw [Scope.length_inner]
    exact (List.getElem?_eq_some_iff.mp entry).1
  obtain ⟨⟨e', members⟩, opened⟩ : ∃ inner, scope.inner[i]? = some inner :=
    ⟨_, List.getElem?_eq_getElem position⟩
  obtain ⟨entry', ⟨after, behind⟩, inside⟩ := Scope.inner_leads opened
  obtain rfl := Option.some.inj (entry'.symm.trans entry)
  have within := List.mem_of_getElem? opened
  -- Its fields, placed on their own from slot zero on, are the members moved back.
  obtain ⟨d, stop, found, membersPlaced⟩ := placed_inner placed within named
  have named_under : ∀ name, memberPath e'.path name = e'.path ++ "." ++ id name := fun _ => rfl
  obtain ⟨alone, rfl, alonePlaced⟩ :=
    placed_moved membersPlaced (Nat.add_zero e'.slot).symm named_under
  have deep := placed_inner_height placed within named
  rw [Scope.height_moved] at deep
  have enough : alone.height ≤ c.structs.length := by omega
  have run := placed_runs alonePlaced enough
  -- They take the slots that the struct was measured with.
  have space := placed_seats seated_measured placed e' (List.mem_of_getElem? entry)
  rw [named] at space
  obtain ⟨count, known, eq⟩ := bind_eq_ok.mp space
  have used := members_fill (sizes_sound measured) known found membersPlaced
  have checked : c.checkDeclarations (d.declarations.filter Declaration.isStored) = .ok () := by
    refine checkDeclarations_eq_ok.mpr fun v mem => ?_
    obtain ⟨f, field, rfl⟩ := List.mem_map.mp (List.mem_filter.mp mem).1
    exact sizes_members measured d (struct?_mem found) f field
  refine ⟨d, ⟨alone.listed.map c.assignment, count⟩, found, ?_, ?_, ?_, ?_⟩
  · refine layout_eq_ok.mpr ⟨stop, alone, place_eq_ok.mpr ⟨sizes, measured, checked, ?_⟩, rfl, used⟩
    rw [stored_declarations]
    exact run
  · rw [listed, ← List.map_drop, behind, Scope.listed_moved]
    simp [Function.comp_def, assignment_moved]
  · intro k
    rw [inside, Scope.listed_moved]
    simp
  · simp [Catalog.assignment, ← Except.ok.inj eq, Footprint.bytes]

/-- Every struct in a layout is laid out like a contract of its own. -/
theorem structs_laid_out_alone (c : Catalog) (declarations : List Declaration) (l : Layout)
    (run : c.layout declarations = .ok l) :
    ∃ cursor scope, c.place declarations = .ok (cursor, scope) ∧
      l.assignments = scope.listed.map c.assignment ∧
      ∀ i e name, scope.listed[i]? = some e → e.ty = .struct name →
        ∃ d own, c.struct? name = some d ∧ StandsAlone c l scope i e d own := by
  obtain ⟨cursor, scope, place, listed, _⟩ := layout_eq_ok.mp run
  obtain ⟨sizes, measured, _, placing⟩ := place_eq_ok.mp place
  have placed := placeFields_placed (fun _ _ _ _ => placeStruct_placed) placing
  have shallow := placeFields_height (fun _ _ _ _ => placeStruct_height) placing
  exact ⟨cursor, scope, place, listed, fun i e name entry named =>
    standsAlone_of_placed measured placed shallow listed entry named⟩

def walletEntry : Entry :=
  ⟨"wallet", .struct "Wallet", .slots 3, 1, 0⟩

theorem wallet_stands_alone :
    ∃ l cursor scope d own, walletCatalog.layout walletDeclarations = .ok l ∧
      walletCatalog.place walletDeclarations = .ok (cursor, scope) ∧
      scope.listed[1]? = some walletEntry ∧
      own.assignments.map (fun a => (a.name, a.slot)) =
        [("owner", 0), ("limits", 1), ("limits.low", 1), ("limits.high", 2)] ∧
      (l.assignments.drop 2).map (fun a => (a.name, a.slot)) =
        [("wallet.owner", 1), ("wallet.limits", 2), ("wallet.limits.low", 2),
          ("wallet.limits.high", 3), ("count", 4)] ∧
      StandsAlone walletCatalog l scope 1 walletEntry d own := by
  obtain ⟨cursor, scope, place, listed, alone⟩ :=
    structs_laid_out_alone walletCatalog walletDeclarations _ rfl
  have second : (walletCatalog.place walletDeclarations).map (fun placed => placed.2.listed[1]?) =
      .ok (some walletEntry) := rfl
  rw [place] at second
  have entry := Except.ok.inj second
  obtain ⟨d, own, found, stands⟩ := alone 1 walletEntry "Wallet" entry rfl
  obtain rfl := Option.some.inj found
  have laidOut := stands.laidOut
  refine ⟨_, cursor, scope, _, own, rfl, place, entry, ?_, by decide, stands⟩
  rw [← Except.ok.inj ((show walletCatalog.layout _ = .ok _ from rfl).symm.trans laidOut)]
  decide

end ContractRegistry
