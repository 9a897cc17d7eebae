import ContractRegistry.Proofs.Catalog.Containment
import ContractRegistry.Proofs.Layout.Size

/-!
How a scope comes to be.

A scope is placed member by member: each gets the space of its type from the cursor, and a struct is
followed by its members, which are placed in the same way from its first slot on. The relation says this
once for the declarations and for the members of structs at any depth, so that what holds of every
layout is shown by one induction on it.
-/
namespace ContractRegistry

structure Seated (c : Catalog) (slots : String → LayoutResult Nat) (base : Nat) (path : String)
    (ty : TypeRef) (cursor : Cursor) (e : Entry) (next : Cursor) : Prop where
  path_eq : e.path = path
  ty_eq : e.ty = ty
  measured : c.footprint slots path ty = .ok e.space
  allotted : ∃ place, cursor.allot path e.space = .ok (place, next) ∧
    e.slot = base + place.slot ∧ e.offset = place.offset
  addressable : e.slot < Numeral.limit64

/-- Members are placed in order from a cursor on, and leave another cursor behind. -/
inductive Placed (c : Catalog) (slots : String → LayoutResult Nat) :
    Nat → (String → String) → Cursor → List Field → Cursor → Scope → Prop where
  | done (base : Nat) (pathOf : String → String) (cursor : Cursor) :
      Placed c slots base pathOf cursor [] cursor .empty
  | plain {base : Nat} {pathOf : String → String} {cursor next last : Cursor} {f : Field}
      {fs : List Field} {e : Entry} {rest : Scope}
      (seated : Seated c slots base (pathOf f.name) f.ty cursor e next)
      (flat : ∀ name, e.ty ≠ .struct name)
      (tail : Placed c slots base pathOf next fs last rest) :
      Placed c slots base pathOf cursor (f :: fs) last (.entry e .empty rest)
  | struct {base : Nat} {pathOf : String → String} {cursor next last stop : Cursor} {f : Field}
      {fs : List Field} {e : Entry} {members rest : Scope} {name : String} {d : StructDef}
      (seated : Seated c slots base (pathOf f.name) f.ty cursor e next)
      (named : e.ty = .struct name) (found : c.struct? name = some d)
      (inside : Placed c slots e.slot (Catalog.memberPath e.path) .start d.fields stop members)
      (tail : Placed c slots base pathOf next fs last rest) :
      Placed c slots base pathOf cursor (f :: fs) last (.entry e members rest)

namespace Catalog

variable {c : Catalog} {slots : String → LayoutResult Nat}

/-- What is placed inside an entry: the members of a struct, and nothing in what is no struct. -/
def Opens (inside : String → Nat → String → LayoutResult Scope) (e : Entry) (members : Scope) :
    Prop :=
  match e.ty with
  | .struct name => inside name e.slot e.path = .ok members
  | _ => members = .empty

theorem opens_struct {inside : String → Nat → String → LayoutResult Scope} {e : Entry}
    {members : Scope} {name : String} (named : e.ty = .struct name) :
    Opens inside e members ↔ inside name e.slot e.path = .ok members := by
  simp only [Opens, named]

theorem opens_plain {inside : String → Nat → String → LayoutResult Scope} {e : Entry}
    {members : Scope} (flat : ∀ name, e.ty ≠ .struct name) : Opens inside e members ↔ members = .empty := by
  simp only [Opens]

/-- All that placing a member does: it gets its space, it is opened, and the others are placed behind
it. -/
theorem placeFields_cons {inside : String → Nat → String → LayoutResult Scope} {base : Nat}
    {pathOf : String → String} {f : Field} {fs : List Field} {cursor last : Cursor} {scope : Scope} :
    c.placeFields slots inside base pathOf cursor (f :: fs) = .ok (last, scope) ↔
      ∃ e next members rest, Seated c slots base (pathOf f.name) f.ty cursor e next ∧
        Opens inside e members ∧
        c.placeFields slots inside base pathOf next fs = .ok (last, rest) ∧
        scope = .entry e members rest := by
  constructor
  · intro run
    obtain ⟨space, measured, run⟩ := bind_eq_ok.mp run
    obtain ⟨⟨place, next⟩, allotted, run⟩ := bind_eq_ok.mp run
    simp only at run
    split at run
    · contradiction
    · rename_i slot numbered
      obtain ⟨small, rfl⟩ := Cursor.slotNumber?_eq_some.mp numbered
      have seated : Seated c slots base (pathOf f.name) f.ty cursor
          ⟨pathOf f.name, f.ty, space, base + place.slot, place.offset⟩ next :=
        ⟨rfl, rfl, measured, ⟨place, allotted, rfl, rfl⟩, small⟩
      split at run
      · rename_i name named
        obtain ⟨members, opened, run⟩ := bind_eq_ok.mp run
        obtain ⟨⟨_, rest⟩, behind, eq⟩ := bind_eq_ok.mp run
        obtain ⟨rfl, rfl⟩ := Prod.mk.inj (Except.ok.inj eq)
        exact ⟨_, next, members, rest, seated, (opens_struct named).mpr opened, behind, rfl⟩
      · rename_i flat
        obtain ⟨_, none_inside, run⟩ := bind_eq_ok.mp run
        obtain rfl := Except.ok.inj none_inside
        obtain ⟨⟨_, rest⟩, behind, eq⟩ := bind_eq_ok.mp run
        obtain ⟨rfl, rfl⟩ := Prod.mk.inj (Except.ok.inj eq)
        exact ⟨_, next, .empty, rest, seated, (opens_plain flat).mpr rfl, behind, rfl⟩
  · rintro ⟨⟨path, ty, space, slot, offset⟩, next, members, rest, seated, opened, behind, rfl⟩
    obtain ⟨rfl, rfl, measured, ⟨place, allotted, rfl, rfl⟩, small⟩ := seated
    have numbered := Cursor.slotNumber?_eq_some.mpr ⟨small, rfl⟩
    refine bind_eq_ok.mpr ⟨space, measured, bind_eq_ok.mpr ⟨(place, next), allotted, ?_⟩⟩
    simp only [numbered]
    split
    · rename_i name named
      exact bind_eq_ok.mpr ⟨members, (opens_struct named).mp opened,
        bind_eq_ok.mpr ⟨(last, rest), behind, rfl⟩⟩
    · rename_i flat
      obtain rfl := (opens_plain flat).mp opened
      exact bind_eq_ok.mpr ⟨.empty, rfl, bind_eq_ok.mpr ⟨(last, rest), behind, rfl⟩⟩

theorem placeFields_placed {inside : String → Nat → String → LayoutResult Scope}
    (structs : ∀ name base path members, inside name base path = .ok members →
      ∃ d stop, c.struct? name = some d ∧
        Placed c slots base (memberPath path) .start d.fields stop members)
    {base : Nat} {pathOf : String → String} {fields : List Field} {cursor last : Cursor}
    {scope : Scope} (run : c.placeFields slots inside base pathOf cursor fields = .ok (last, scope)) :
    Placed c slots base pathOf cursor fields last scope := by
  induction fields generalizing cursor scope with
  | nil =>
    obtain ⟨rfl, rfl⟩ := Prod.mk.inj (Except.ok.inj run)
    exact .done base pathOf cursor
  | cons f fs ih =>
    obtain ⟨e, next, members, rest, seated, opened, behind, rfl⟩ := placeFields_cons.mp run
    by_cases named : ∃ name, e.ty = .struct name
    · obtain ⟨name, named⟩ := named
      obtain ⟨d, stop, found, placed⟩ := structs _ _ _ _ ((opens_struct named).mp opened)
      exact .struct seated named found placed (ih behind)
    · have flat : ∀ name, e.ty ≠ .struct name := fun name same => named ⟨name, same⟩
      obtain rfl := (opens_plain flat).mp opened
      exact .plain seated flat (ih behind)

theorem placeStruct_placed {depth : Nat} {name : String} {base : Nat} {path : String}
    {members : Scope} (run : c.placeStruct slots depth name base path = .ok members) :
    ∃ d stop, c.struct? name = some d ∧
      Placed c slots base (memberPath path) .start d.fields stop members := by
  -- The depth bounds the walk only; what is placed does not tell it.
  induction depth generalizing name base path members with
  | zero => simp [placeStruct] at run
  | succ depth ih =>
    simp only [placeStruct] at run
    split at run
    · simp at run
    · rename_i d found
      obtain ⟨⟨stop, scope⟩, placed, eq⟩ := bind_eq_ok.mp run
      rw [← Except.ok.inj eq]
      exact ⟨d, stop, found, placeFields_placed (fun _ _ _ _ => ih) placed⟩

theorem orFail_eq_ok {α : Type} {x : Except CatalogError α} {a : α} :
    orFail x = .ok a ↔ x = .ok a := by
  cases x <;> simp [orFail]

theorem checkDeclarations_eq_ok {declarations : List Declaration} :
    c.checkDeclarations declarations = .ok () ↔
      ∀ d ∈ declarations, ∀ name, d.ty.Mentions name → c.Registered name := by
  induction declarations with
  | nil => simp [checkDeclarations]
  | cons d ds ih =>
    rw [List.forall_mem_cons, ← ih, ← check_eq_ok]
    exact check_bind_eq_ok

/-- The declarations in storage are checked, and then placed by the sizes of the structs. -/
theorem place_eq_ok {declarations : List Declaration} {cursor : Cursor} {scope : Scope} :
    c.place declarations = .ok (cursor, scope) ↔ ∃ sizes, c.sizes = .ok sizes ∧
      c.checkDeclarations (declarations.filter Declaration.isStored) = .ok () ∧
      c.placeFields sizes.slots (c.placeStruct sizes.slots c.structs.length) 0 id .start
        (stored declarations) = .ok (cursor, scope) := by
  refine bind_eq_ok.trans (exists_congr fun sizes => and_congr_right fun _ => ?_)
  rw [check_bind_eq_ok, orFail_eq_ok]

theorem layout_eq_ok {declarations : List Declaration} {l : Layout} :
    c.layout declarations = .ok l ↔
      ∃ cursor scope, c.place declarations = .ok (cursor, scope) ∧
        l.assignments = scope.listed.map c.assignment ∧ cursor.slotsUsed = .ok l.slotsUsed := by
  constructor
  · intro run
    obtain ⟨⟨cursor, scope⟩, placed, run⟩ := bind_eq_ok.mp run
    obtain ⟨used, counted, eq⟩ := bind_eq_ok.mp run
    rw [← Except.ok.inj eq]
    exact ⟨cursor, scope, placed, rfl, counted⟩
  · obtain ⟨assignments, used⟩ := l
    rintro ⟨cursor, scope, placed, rfl, counted⟩
    exact bind_eq_ok.mpr ⟨(cursor, scope), placed, bind_eq_ok.mpr ⟨used, counted, rfl⟩⟩

theorem place_placed {declarations : List Declaration} {cursor : Cursor} {scope : Scope}
    (run : c.place declarations = .ok (cursor, scope)) :
    ∃ sizes, c.sizes = .ok sizes ∧
      Placed c sizes.slots 0 id .start (stored declarations) cursor scope := by
  obtain ⟨sizes, measured, _, run⟩ := place_eq_ok.mp run
  exact ⟨sizes, measured, placeFields_placed (fun _ _ _ _ => placeStruct_placed) run⟩

theorem layout_placed {declarations : List Declaration} {l : Layout}
    (run : c.layout declarations = .ok l) :
    ∃ cursor scope, c.place declarations = .ok (cursor, scope) ∧
      l.assignments = scope.listed.map c.assignment ∧ cursor.slotsUsed = .ok l.slotsUsed :=
  layout_eq_ok.mp run

end Catalog

variable {c : Catalog} {slots : String → LayoutResult Nat}

theorem seated_measures {base : Nat} {pathOf : String → String} {cursor next last : Cursor}
    {f : Field} {fs : List Field} {e : Entry} {owner : String}
    (seated : Seated c slots base (pathOf f.name) f.ty cursor e next)
    (behind : c.measureFields slots owner next fs = .ok last) :
    c.measureFields slots owner cursor (f :: fs) = .ok last := by
  obtain ⟨place, allotted, _⟩ := seated.allotted
  rw [Catalog.measureFields_cons seated.measured allotted]
  exact behind

theorem placed_measures {base : Nat} {pathOf : String → String} {cursor last : Cursor}
    {fields : List Field} {scope : Scope}
    (placed : Placed c slots base pathOf cursor fields last scope) (owner : String) :
    c.measureFields slots owner cursor fields = .ok last := by
  induction placed with
  | done => rfl
  | plain seated _ _ ih => exact seated_measures seated ih
  | struct seated _ _ _ _ _ ih => exact seated_measures seated ih

theorem members_fill {sizes : Catalog.Sizes} (sound : sizes.Sound c) {name : String} {d : StructDef}
    {count base : Nat} {pathOf : String → String} {stop : Cursor} {members : Scope}
    (measured : sizes.slots name = .ok count) (found : c.struct? name = some d)
    (placed : Placed c sizes.slots base pathOf .start d.fields stop members) :
    stop.slotsUsed = .ok count := by
  obtain ⟨e, again, run⟩ := sound name count measured
  rw [found] at again
  rw [← Option.some.inj again] at run
  obtain ⟨_, last, moved, used⟩ := Catalog.measure_eq_ok.mp run
  have same := placed_measures placed d.name
  rw [moved] at same
  rw [← Except.ok.inj same]
  exact used

theorem seated_in_slot {base : Nat} {path : String} {ty : TypeRef} {cursor next : Cursor} {e : Entry}
    (sized : ty.Sized) (seated : Seated c slots base path ty cursor e next) :
    next.offset ≤ slotBytes := by
  obtain ⟨place, allotted, _⟩ := seated.allotted
  exact Cursor.allot_in_slot (Catalog.footprint_sized sized seated.measured) allotted

theorem seated_aligned {base : Nat} {path : String} {ty : TypeRef} {cursor next : Cursor} {e : Entry}
    (seated : Seated c slots base path ty cursor e next) (whole : ty.packedSize? = none) :
    e.offset = 0 := by
  obtain ⟨place, allotted, _, offset⟩ := seated.allotted
  cases space : e.space with
  | packed size =>
    have packs := (Catalog.footprint_packed_iff seated.measured size).mp space
    simp [whole] at packs
  | slots count =>
    rw [space] at allotted
    rw [offset, (Cursor.allot_slots allotted).1]
    split
    · assumption
    · rfl

theorem seated_struct {base : Nat} {path name : String} {ty : TypeRef} {cursor next : Cursor}
    {e : Entry} (seated : Seated c slots base path ty cursor e next) (named : e.ty = .struct name) :
    ∃ count, slots name = .ok count ∧ e.space = .slots count := by
  have measured := seated.measured
  rw [← seated.ty_eq, named] at measured
  obtain ⟨count, known, eq⟩ := bind_eq_ok.mp measured
  exact ⟨count, known, (Except.ok.inj eq).symm⟩

theorem fields_sized {name : String} {d : StructDef} (types : c.Sized)
    (found : c.struct? name = some d) : ∀ f ∈ d.fields, f.ty.Sized :=
  types d (Catalog.struct?_mem found)

/-- What holds of every member that gets its space holds of all that is placed, at any depth, as long as
the cursor stays as it has to be. -/
theorem placed_listed {P : Entry → Prop} {known : TypeRef → Prop} {well : Cursor → Prop}
    (structs : ∀ d ∈ c.structs, ∀ f ∈ d.fields, known f.ty) (start : well .start)
    (member : ∀ {base path ty cursor e next}, known ty → well cursor →
      Seated c slots base path ty cursor e next → P e ∧ well next)
    {base : Nat} {pathOf : String → String} {cursor last : Cursor} {fields : List Field}
    {scope : Scope} (placed : Placed c slots base pathOf cursor fields last scope)
    (declared : ∀ f ∈ fields, known f.ty) (before : well cursor) : ∀ e ∈ scope.listed, P e := by
  induction placed with
  | done => simp [Scope.listed]
  | plain seated _ _ ih =>
    obtain ⟨first, others⟩ := List.forall_mem_cons.mp declared
    obtain ⟨here, next⟩ := member first before seated
    have behind := ih others next
    simpa [Scope.listed] using ⟨here, behind⟩
  | struct seated _ found _ _ inside ih =>
    obtain ⟨first, others⟩ := List.forall_mem_cons.mp declared
    obtain ⟨here, next⟩ := member first before seated
    have behind := ih others next
    have members := inside (structs _ (Catalog.struct?_mem found)) start
    intro e mem
    simp only [Scope.listed, List.cons_append, List.mem_cons, List.mem_append] at mem
    rcases mem with rfl | mem | mem
    · exact here
    · exact members e mem
    · exact behind e mem

theorem placed_seats {P : Entry → Prop}
    (member : ∀ {base path ty cursor e next}, Seated c slots base path ty cursor e next → P e)
    {base : Nat} {pathOf : String → String} {cursor last : Cursor} {fields : List Field}
    {scope : Scope} (placed : Placed c slots base pathOf cursor fields last scope) :
    ∀ e ∈ scope.listed, P e := by
  exact @placed_listed c slots P (fun _ => True) (fun _ => True) (fun _ _ _ _ => trivial) trivial
    (fun _ _ seated => ⟨member seated, trivial⟩) base pathOf cursor last fields scope placed
    (fun _ _ => trivial) trivial

/-- The same where the sizes of values and the room in the slot of the cursor are needed. -/
theorem placed_forall {P : Entry → Prop} (types : c.Sized)
    (member : ∀ {base path ty cursor e next}, ty.Sized → cursor.offset ≤ slotBytes →
      Seated c slots base path ty cursor e next → P e)
    {base : Nat} {pathOf : String → String} {cursor last : Cursor} {fields : List Field}
    {scope : Scope} (placed : Placed c slots base pathOf cursor fields last scope)
    (sized : ∀ f ∈ fields, f.ty.Sized) (within : cursor.offset ≤ slotBytes) :
    ∀ e ∈ scope.listed, P e :=
  placed_listed types (Nat.zero_le _)
    (fun first room seated => ⟨member first room seated, seated_in_slot first seated⟩) placed sized within

end ContractRegistry
