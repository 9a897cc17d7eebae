import ContractRegistry.Proofs.Layout.Append
import ContractRegistry.Proofs.Layout.Readable

/-!
The signature of a type tells all of its layout.

Types with one signature match part by part. Structs that match have the same number of slots, because each
size is that of the members by the sizes of the structs among them. So a variable takes the same places
with either type, at any depth, and leaves the cursor in the same place for what comes behind it.
-/
namespace ContractRegistry

theorem TypeRef.mentions_of_stores {ty : TypeRef} {name : String} (stores : ty.Stores name) :
    ty.Mentions name := by
  induction stores with
  | struct name => exact .struct name
  | element length _ ih => exact .fixedElement length ih

namespace Catalog
variable {c : Catalog}

theorem footprint_congr {slots slots' : String → LayoutResult Nat} {ty : TypeRef}
    (agree : ∀ name, ty.Stores name → slots name = slots' name) (path : String) :
    c.footprint slots path ty = c.footprint slots' path ty := by
  induction ty with
  | elementary kind => rfl
  | fixedArray element length ih =>
    simp only [footprint, ih fun name inside => agree name (.element length inside)]
  | dynamicArray element _ => rfl
  | mapping key value _ _ => cases key <;> rfl
  | struct name => simp only [footprint, agree name (.struct name)]

theorem measureFields_congr {slots slots' : String → LayoutResult Nat} {fields : List Field}
    (agree : ∀ f ∈ fields, ∀ name, f.ty.Stores name → slots name = slots' name) (owner : String)
    (cursor : Cursor) : c.measureFields slots owner cursor fields = c.measureFields slots' owner cursor fields := by
  induction fields generalizing cursor with
  | nil => rfl
  | cons f fs ih =>
    obtain ⟨here, others⟩ := List.forall_mem_cons.mp agree
    simp only [measureFields, footprint_congr here, ih others]

theorem measure_congr {slots slots' : String → LayoutResult Nat} {d : StructDef}
    (agree : ∀ f ∈ d.fields, ∀ name, f.ty.Stores name → slots name = slots' name) :
    c.measure slots d = c.measure slots' d := by
  simp only [measure, measureFields_congr agree]

theorem measureAll_concat (sizes : Sizes) (names : List String) {name : String} {d : StructDef}
    (found : c.struct? name = some d) :
    c.measureAll sizes (names ++ [name]) =
      (name, c.measure (c.measureAll sizes names).slots d) :: c.measureAll sizes names := by
  induction names generalizing sizes with
  | nil => simp only [List.nil_append, measureAll, found]
  | cons first names ih =>
    simp only [List.cons_append, measureAll]
    split
    · exact ih _
    · exact ih _

theorem measured_of_finished {done : List String} (finished : c.Finished done)
    (members : ∀ d ∈ c.structs, ∀ f ∈ d.fields, ∀ name, f.ty.Mentions name → c.Registered name) :
    ∀ name ∈ done, ∀ d, c.struct? name = some d →
      (c.measureAll [] done.reverse).slots name = c.measure (c.measureAll [] done.reverse).slots d := by
  induction finished with
  | nil => exact fun name member => absurd member List.not_mem_nil
  | @cons last e done found fresh inside before ih =>
    rw [List.reverse_cons, measureAll_concat _ _ found]
    generalize c.measureAll [] done.reverse = sizes at ih
    -- What a finished struct stores was finished before it, so the last one is not in it.
    have agree : ∀ d ∈ c.structs, (∀ f ∈ d.fields, ∀ name, f.ty.Stores name → name ∈ done) →
        c.measure (Sizes.slots ((last, c.measure sizes.slots e) :: sizes)) d = c.measure sizes.slots d := by
      intro d _ stored
      apply measure_congr
      intro f member name stores
      rw [Sizes.slots_cons, if_neg]
      rintro rfl
      exact fresh (stored f member name stores)
    have registered : ∀ d ∈ c.structs, ∀ f ∈ d.fields, ∀ name, f.ty.Stores name → c.Registered name := by
      intro d known f member name stores
      exact members d known f member name (TypeRef.mentions_of_stores stores)
    intro name member d known
    have listed := struct?_mem known
    rw [Sizes.slots_cons]
    rcases List.mem_cons.mp member with rfl | earlier
    · obtain rfl := Option.some.inj (found.symm.trans known)
      rw [if_pos rfl, agree e listed]
      intro f within child stores
      have contained : child ∈ e.contained :=
        List.mem_flatMap.mpr ⟨f, within, TypeRef.mem_contained_iff.mpr stores⟩
      exact inside child contained (hasStruct_iff.mpr (registered e listed f within child stores))
    · have other : name ≠ last := by
        rintro rfl
        exact fresh earlier
      rw [if_neg other, agree d listed]
      · exact ih name earlier d known
      · intro f within child stores
        exact finished_closed before earlier ⟨d, known, f, within, stores⟩
          (registered d listed f within child stores)

theorem sizes_eq_ok {sizes : Sizes} (run : c.sizes = .ok sizes) :
    (∀ d ∈ c.structs, ∀ f ∈ d.fields, ∀ name, f.ty.Mentions name → c.Registered name) ∧
      ∃ order, c.ContainmentOrder order ∧ sizes = c.measureAll [] order := by
  obtain ⟨order, valid, eq⟩ := bind_eq_ok.mp run
  obtain ⟨checked, walked⟩ := validate_eq_ok.mp (orFail_eq_ok.mp valid)
  refine ⟨checkStructs_eq_ok.mp checked, order, ?_, (Except.ok.inj eq).symm⟩
  rcases c.containmentOrder_walks with ⟨order', run', ordered⟩ | ⟨path, failed, -⟩
  · rw [walked] at run'
    rwa [Except.ok.inj run']
  · rw [walked] at failed
    contradiction

theorem slots_eq_measure {sizes : Sizes} (run : c.sizes = .ok sizes) {name : String} {d : StructDef}
    (found : c.struct? name = some d) : sizes.slots name = c.measure sizes.slots d := by
  obtain ⟨members, order, ordered, rfl⟩ := sizes_eq_ok run
  have measured := measured_of_finished ordered.finished members name
    (List.mem_reverse.mpr (ordered.members name (registered_of_struct? found))) d found
  rwa [List.reverse_reverse] at measured

/-- Structs that are the same have members or not, and the same number of slots. -/
structure Exchanges (c : Catalog) (slots : String → LayoutResult Nat)
    (same : String → String → Prop) : Prop where
  members : ∀ x y d, same x y → c.struct? x = some d → d.fields ≠ [] →
    ∃ e, c.struct? y = some e ∧ e.fields ≠ []
  slots : ∀ x y count, same x y → slots x = .ok count → slots y = .ok count

variable {slots : String → LayoutResult Nat} {same : String → String → Prop}

theorem checkRemote_struct {path name : String} :
    c.checkRemote path (.struct name) = .ok () ↔ ∃ d, c.struct? name = some d ∧ d.fields ≠ [] := by
  rw [checkRemote]
  cases c.struct? name with
  | none => simp
  | some d => by_cases blank : d.fields = [] <;> simp [blank]

section
variable (exchanges : c.Exchanges slots same)
include exchanges

theorem checkRemote_matches {t u : TypeRef} (both : t.Matches same u) {path : String}
    (run : c.checkRemote path t = .ok ()) (other : String) : c.checkRemote other u = .ok () := by
  induction both with
  | elementary kind => rfl
  | fixedArray length _ ih =>
    simp only [checkRemote] at run ⊢
    split at run
    · contradiction
    · next some_elements =>
      rw [if_neg some_elements]
      exact ih run
  | dynamicArray _ ih => exact ih run
  | mapping keys _ _ ihv =>
    cases keys with
    | elementary kind => exact ihv run
    | _ => simp [checkRemote] at run
  | struct structs =>
    obtain ⟨d, found, some_members⟩ := checkRemote_struct.mp run
    exact checkRemote_struct.mpr (exchanges.members _ _ d structs found some_members)

theorem footprint_matches {t u : TypeRef} (both : t.Matches same u) {path : String} {space : Footprint}
    (run : c.footprint slots path t = .ok space) (other : String) :
    c.footprint slots other u = .ok space := by
  induction both generalizing space with
  | elementary kind => exact run
  | fixedArray length _ ih =>
    simp only [footprint] at run ⊢
    split at run
    · contradiction
    · next some_elements =>
      rw [if_neg some_elements]
      obtain ⟨each, measured, run⟩ := bind_eq_ok.mp run
      obtain ⟨count, counted, eq⟩ := bind_eq_ok.mp run
      exact bind_eq_ok.mpr ⟨each, ih measured,
        bind_eq_ok.mpr ⟨count, arraySlots_any_path counted other, eq⟩⟩
  | dynamicArray elements _ =>
    obtain ⟨_, checked, eq⟩ := bind_eq_ok.mp run
    exact bind_eq_ok.mpr ⟨(), checkRemote_matches exchanges elements checked other, eq⟩
  | mapping keys values _ _ =>
    cases keys with
    | elementary kind =>
      obtain ⟨_, checked, eq⟩ := bind_eq_ok.mp run
      exact bind_eq_ok.mpr ⟨(), checkRemote_matches exchanges values checked other, eq⟩
    | _ => simp [footprint] at run
  | struct structs =>
    obtain ⟨count, measured, eq⟩ := bind_eq_ok.mp run
    exact bind_eq_ok.mpr ⟨count, exchanges.slots _ _ count structs measured, eq⟩

theorem measureFields_matches {fs gs : List Field}
    (fields : List.Forall₂ (fun f g => f.ty.Matches same g.ty) fs gs) {owner : String}
    {cursor last : Cursor} (run : c.measureFields slots owner cursor fs = .ok last) (other : String) :
    c.measureFields slots other cursor gs = .ok last := by
  induction fields generalizing cursor with
  | nil => exact run
  | cons here _ ih =>
    obtain ⟨space, measured, run⟩ := bind_eq_ok.mp run
    obtain ⟨⟨place, next⟩, allotted, run⟩ := bind_eq_ok.mp run
    rw [measureFields_cons (footprint_matches exchanges here measured _) allotted]
    exact ih run

theorem measure_matches {d e : StructDef}
    (fields : List.Forall₂ (fun f g => f.ty.Matches same g.ty) d.fields e.fields) {count : Nat}
    (run : c.measure slots d = .ok count) : c.measure slots e = .ok count := by
  obtain ⟨some_members, last, measured, used⟩ := measure_eq_ok.mp run
  refine measure_eq_ok.mpr ⟨?_, last, measureFields_matches exchanges fields measured _, used⟩
  intro blank
  rw [blank] at fields
  exact some_members (List.forall₂_nil_right_iff.mp fields)

end

theorem twins_exchange {sizes : Sizes} (run : c.sizes = .ok sizes) (depth : Nat) :
    c.Exchanges sizes.slots (c.Twins depth) := by
  induction depth with
  | zero =>
    constructor
    · rintro x _ d rfl found some_members
      exact ⟨d, found, some_members⟩
    · rintro x _ count rfl known
      exact known
  | succ depth ih =>
    constructor
    · rintro x y d (rfl | ⟨d', e, found', other, fields⟩) found some_members
      · exact ⟨d, found, some_members⟩
      · obtain rfl := Option.some.inj (found.symm.trans found')
        refine ⟨e, other, ?_⟩
        intro blank
        rw [blank] at fields
        exact some_members (List.forall₂_nil_right_iff.mp fields)
    · rintro x y count (rfl | ⟨d, e, found, other, fields⟩) known
      · exact known
      · rw [slots_eq_measure run found] at known
        rw [slots_eq_measure run other]
        exact measure_matches ih fields known

end Catalog

def Assignment.spot (a : Assignment) : Nat × Nat × Nat × Role :=
  (a.slot, a.offset, a.size, a.role)

def Entry.spot (e : Entry) : Nat × Nat × Nat × Role :=
  (e.slot, e.offset, e.space.bytes, e.ty.role)

def Scope.spots (s : Scope) : List (Nat × Nat × Nat × Role) :=
  s.listed.map Entry.spot

theorem Scope.spots_entry (e : Entry) (members rest : Scope) :
    (Scope.entry e members rest).spots = e.spot :: members.spots ++ rest.spots := by
  simp [spots, listed]

theorem TypeRef.Matches.role_eq {same : String → String → Prop} {t u : TypeRef} (both : t.Matches same u) :
    u.role = t.role := by
  cases both <;> rfl

namespace Catalog
variable {c : Catalog} {slots : String → LayoutResult Nat} {same : String → String → Prop}

def OpensAlike (same : String → String → Prop)
    (inside inside' : String → Nat → String → LayoutResult Scope) : Prop :=
  ∀ x y base path other members, same x y → inside x base path = .ok members →
    ∃ members', inside' y base other = .ok members' ∧ members'.spots = members.spots

theorem opens_matches {inside inside' : String → Nat → String → LayoutResult Scope}
    (alike : OpensAlike same inside inside') {e e' : Entry} (types : e.ty.Matches same e'.ty)
    (slot : e'.slot = e.slot) {members : Scope} (opened : Opens inside e members) :
    ∃ members', Opens inside' e' members' ∧ members'.spots = members.spots := by
  unfold Opens at opened ⊢
  generalize e.ty = t at types opened
  generalize e'.ty = u at types
  cases types with
  | struct structs =>
    rw [slot]
    exact alike _ _ _ _ _ members structs opened
  | _ => exact ⟨members, opened, rfl⟩

theorem placeFields_matches {inside inside' : String → Nat → String → LayoutResult Scope}
    (exchanges : c.Exchanges slots same) (alike : OpensAlike same inside inside') {base : Nat}
    {pathOf : String → String} {fs gs : List Field} {cursor last : Cursor} {scope : Scope}
    (fields : List.Forall₂ (fun f g => f.ty.Matches same g.ty) fs gs)
    (run : c.placeFields slots inside base pathOf cursor fs = .ok (last, scope))
    (pathOf' : String → String) :
    ∃ scope', c.placeFields slots inside' base pathOf' cursor gs = .ok (last, scope') ∧
      scope'.spots = scope.spots := by
  induction fields generalizing cursor scope with
  | nil =>
    obtain ⟨rfl, rfl⟩ := Prod.mk.inj (Except.ok.inj run)
    exact ⟨.empty, rfl, rfl⟩
  | @cons f g fs gs here _ ih =>
    obtain ⟨e, next, members, rest, seated, opened, behind, rfl⟩ := placeFields_cons.mp run
    obtain ⟨place, allotted, slot, offset⟩ := seated.allotted
    let e' : Entry := ⟨pathOf' g.name, g.ty, e.space, e.slot, e.offset⟩
    have seated' : Seated c slots base (pathOf' g.name) g.ty cursor e' next :=
      ⟨rfl, rfl, footprint_matches exchanges here seated.measured _,
        ⟨place, Cursor.allot_any_path allotted _, slot, offset⟩, seated.addressable⟩
    have types : e.ty.Matches same e'.ty := seated.ty_eq ▸ here
    obtain ⟨members', opened', inner⟩ := opens_matches alike types rfl opened
    obtain ⟨rest', behind', outer⟩ := ih behind
    refine ⟨.entry e' members' rest',
      placeFields_cons.mpr ⟨e', next, members', rest', seated', opened', behind', rfl⟩, ?_⟩
    have spot : e'.spot = e.spot := by
      simp only [Entry.spot, types.role_eq, e']
    rw [Scope.spots_entry, Scope.spots_entry, inner, outer, spot]

theorem twins_members {depth : Nat} {x y : String} {d : StructDef} (twins : c.Twins depth x y)
    (found : c.struct? x = some d) : ∃ e rest, c.struct? y = some e ∧
      List.Forall₂ (fun f g => f.ty.Matches (c.Twins rest) g.ty) d.fields e.fields := by
  have itself : List.Forall₂ (fun f g : Field => f.ty.Matches (c.Twins 0) g.ty) d.fields d.fields :=
    List.forall₂_same.mpr fun f _ => .refl (Twins.refl 0) f.ty
  cases depth with
  | zero =>
    obtain rfl := twins
    exact ⟨d, 0, found, itself⟩
  | succ depth =>
    rcases twins with rfl | ⟨d', e, found', other, fields⟩
    · exact ⟨d, 0, found, itself⟩
    · obtain rfl := Option.some.inj (found.symm.trans found')
      exact ⟨e, depth, other, fields⟩

theorem placeStruct_matches {sizes : Sizes} (run : c.sizes = .ok sizes) (fuel depth : Nat) :
    OpensAlike (c.Twins depth) (c.placeStruct sizes.slots fuel) (c.placeStruct sizes.slots fuel) := by
  induction fuel generalizing depth with
  | zero =>
    intro x y base path other members _ opened
    contradiction
  | succ fuel ih =>
    intro x y base path other members twins opened
    simp only [placeStruct] at opened ⊢
    split at opened
    · contradiction
    · next d found =>
      obtain ⟨e, rest, found', fields⟩ := twins_members twins found
      obtain ⟨⟨stop, scope⟩, placed, eq⟩ := bind_eq_ok.mp opened
      obtain rfl := Except.ok.inj eq
      obtain ⟨scope', placed', spots⟩ :=
        placeFields_matches (twins_exchange run rest) (ih rest) fields placed (memberPath other)
      rw [found']
      exact ⟨scope', bind_eq_ok.mpr ⟨(stop, scope'), placed', rfl⟩, spots⟩

end Catalog

def Declaration.withType (d : Declaration) (ty : TypeRef) : Declaration :=
  { d with ty := ty }

namespace Catalog
variable {c : Catalog} {before after : List Declaration} {v : Declaration} {t u : TypeRef}

theorem checkDeclarations_append (p q : List Declaration) :
    c.checkDeclarations (p ++ q) = .ok () ↔
      c.checkDeclarations p = .ok () ∧ c.checkDeclarations q = .ok () := by
  simp only [checkDeclarations_eq_ok, List.forall_mem_append]

theorem checkDeclarations_one {d : Declaration} (checked : c.check d.ty = .ok ()) :
    c.checkDeclarations ([d].filter Declaration.isStored) = .ok () := by
  rw [checkDeclarations_eq_ok]
  intro e member
  obtain rfl := List.mem_singleton.mp (List.mem_of_mem_filter member)
  exact check_eq_ok.mp checked

theorem stored_matches {same : String → String → Prop} (reflexive : ∀ x, same x x)
    (before : List Declaration) (v : Declaration) (both : t.Matches same u) :
    List.Forall₂ (fun f g => f.ty.Matches same g.ty) (stored (before ++ [v.withType t]))
      (stored (before ++ [v.withType u])) := by
  rw [stored_append, stored_append]
  apply List.rel_append
  · exact List.forall₂_same.mpr fun f _ => .refl reflexive f.ty
  · unfold stored
    cases here : v.isStored with
    | true =>
      have stays (ty : TypeRef) : (v.withType ty).isStored = true := here
      simp only [List.filter_cons, stays, if_true, List.filter_nil, List.map_cons, List.map_nil]
      exact .cons both .nil
    | false =>
      have stays (ty : TypeRef) : (v.withType ty).isStored = false := here
      simp only [List.filter_cons, stays, List.filter_nil, List.map_nil, Bool.false_eq_true, if_false]
      exact .nil

/-- With a type that matches, the declarations up to the variable take the same places and leave the same
cursor, so that those behind it are placed as before. -/
theorem place_matches {depth : Nat} (both : t.Matches (c.Twins depth) u) (checked : c.check u = .ok ())
    {last : Cursor} {scope : Scope}
    (run : c.place (before ++ v.withType t :: after) = .ok (last, scope)) :
    ∃ middle first second behind, c.place (before ++ [v.withType t]) = .ok (middle, first) ∧
      c.place (before ++ [v.withType u]) = .ok (middle, second) ∧ second.spots = first.spots ∧
      scope = first.append behind ∧
      c.place (before ++ v.withType u :: after) = .ok (last, second.append behind) := by
  obtain ⟨sizes, measured, declared, placed⟩ := place_eq_ok.mp run
  rw [List.append_cons, List.filter_append, List.filter_append, checkDeclarations_append,
    checkDeclarations_append] at declared
  obtain ⟨⟨declaredBefore, declaredHere⟩, declaredAfter⟩ := declared
  rw [List.append_cons, stored_append] at placed
  obtain ⟨middle, first, behind, begun, others, rfl⟩ := placeFields_append placed
  obtain ⟨second, begun', spots⟩ := placeFields_matches (twins_exchange measured depth)
    (placeStruct_matches measured _ depth) (stored_matches (Twins.refl depth) before v both) begun id
  have declaredThere := checkDeclarations_one (d := v.withType u) checked
  refine ⟨middle, first, second, behind, ?_, ?_, spots, rfl, ?_⟩
  · refine place_eq_ok.mpr ⟨sizes, measured, ?_, begun⟩
    rw [List.filter_append, checkDeclarations_append]
    exact ⟨declaredBefore, declaredHere⟩
  · refine place_eq_ok.mpr ⟨sizes, measured, ?_, begun'⟩
    rw [List.filter_append, checkDeclarations_append]
    exact ⟨declaredBefore, declaredThere⟩
  · rw [List.append_cons]
    refine place_eq_ok.mpr ⟨sizes, measured, ?_, ?_⟩
    · rw [List.filter_append, List.filter_append, checkDeclarations_append, checkDeclarations_append]
      exact ⟨⟨declaredBefore, declaredThere⟩, declaredAfter⟩
    · rw [stored_append]
      exact placeFields_append_ok begun' others

/-- Two layouts with one variable of different types: all is in the same place, and what is behind the
variable is the same altogether. -/
structure Exchanged (c : Catalog) (before : List Declaration) (v : Declaration) (t u : TypeRef)
    (l m : Layout) : Prop where
  slotsUsed : m.slotsUsed = l.slotsUsed
  spots : m.assignments.map Assignment.spot = l.assignments.map Assignment.spot
  behind : ∃ first second rest, c.layout (before ++ [v.withType t]) = .ok first ∧
    c.layout (before ++ [v.withType u]) = .ok second ∧
    l.assignments = first.assignments ++ rest ∧ m.assignments = second.assignments ++ rest

theorem spots_assignments (s : Scope) : (s.listed.map c.assignment).map Assignment.spot = s.spots := by
  rw [List.map_map]
  rfl

theorem spots_append (first behind : Scope) : (first.append behind).spots = first.spots ++ behind.spots := by
  unfold Scope.spots
  rw [Scope.listed_append, List.map_append]

theorem layout_matches {depth : Nat} (both : t.Matches (c.Twins depth) u) (checked : c.check u = .ok ())
    {l : Layout} (run : c.layout (before ++ v.withType t :: after) = .ok l) :
    ∃ m, c.layout (before ++ v.withType u :: after) = .ok m ∧ c.Exchanged before v t u l m := by
  obtain ⟨last, scope, place, listed, counted⟩ := layout_eq_ok.mp run
  obtain ⟨middle, first, second, behind, begun, begun', spots, rfl, place'⟩ :=
    place_matches both checked place
  rw [List.append_cons] at run
  obtain ⟨start, alone, -⟩ := layout_append run
  obtain ⟨middle', first', again, listed', counted'⟩ := layout_eq_ok.mp alone
  rw [begun] at again
  obtain ⟨rfl, rfl⟩ := Prod.mk.inj (Except.ok.inj again)
  refine ⟨⟨(second.append behind).listed.map c.assignment, l.slotsUsed⟩,
    layout_eq_ok.mpr ⟨last, second.append behind, place', rfl, counted⟩, rfl, ?_,
    start, ⟨second.listed.map c.assignment, start.slotsUsed⟩, behind.listed.map c.assignment, alone,
    layout_eq_ok.mpr ⟨middle, second, begun', rfl, counted'⟩, ?_, ?_⟩
  · rw [listed, spots_assignments, spots_assignments, spots_append, spots_append, spots]
  · rw [listed, listed', Scope.listed_append, List.map_append]
  · rw [Scope.listed_append, List.map_append]

end Catalog

open Catalog

/-- A variable can be declared with either of two types or with neither, and the layouts are alike. -/
structure SignatureLaw (c : Catalog) (before : List Declaration) (v : Declaration)
    (after : List Declaration) (t u : TypeRef) : Prop where
  together : (∃ l, c.layout (before ++ v.withType t :: after) = .ok l) ↔
    ∃ m, c.layout (before ++ v.withType u :: after) = .ok m
  alike : ∀ l m, c.layout (before ++ v.withType t :: after) = .ok l →
    c.layout (before ++ v.withType u :: after) = .ok m → c.Exchanged before v t u l m

theorem valid_of_layout {c : Catalog} {declarations : List Declaration} {l : Layout}
    (run : c.layout declarations = .ok l) :
    ∀ d ∈ c.structs, ∀ f ∈ d.fields, ∀ name, f.ty.Mentions name → c.Registered name := by
  obtain ⟨_, _, place, _, _⟩ := layout_eq_ok.mp run
  obtain ⟨sizes, measured, _, _⟩ := place_eq_ok.mp place
  exact (sizes_eq_ok measured).1

theorem signature_determines_layout (c : Catalog) (names : ∀ d ∈ c.structs, Identifier d.name)
    (t u : TypeRef) (first : c.check t = .ok ()) (second : c.check u = .ok ())
    (same : c.signature t = c.signature u) (before : List Declaration) (v : Declaration)
    (after : List Declaration) : SignatureLaw c before v after t u := by
  have forth : ∀ l, c.layout (before ++ v.withType t :: after) = .ok l →
      ∃ m, c.layout (before ++ v.withType u :: after) = .ok m ∧ c.Exchanged before v t u l m := by
    intro l run
    exact layout_matches (matches_of_signature names (valid_of_layout run) first second same) second run
  have back : ∀ m, c.layout (before ++ v.withType u :: after) = .ok m →
      ∃ l, c.layout (before ++ v.withType t :: after) = .ok l ∧ c.Exchanged before v u t m l := by
    intro m run
    exact layout_matches (matches_of_signature names (valid_of_layout run) second first same.symm) first run
  refine ⟨⟨?_, ?_⟩, ?_⟩
  · rintro ⟨l, run⟩
    obtain ⟨m, run', -⟩ := forth l run
    exact ⟨m, run'⟩
  · rintro ⟨m, run⟩
    obtain ⟨l, run', -⟩ := back m run
    exact ⟨l, run'⟩
  · intro l m run run'
    obtain ⟨m', again, exchanged⟩ := forth l run
    rw [run'] at again
    rwa [Except.ok.inj again]

/-- `struct Node { uint128 value; Node[] children; }`, and `Left` and `Right`, which have one each by
different names. -/
def twinCatalog : Catalog :=
  ⟨[⟨"Node", [⟨"value", .elementary (.uint 128)⟩, ⟨"children", .dynamicArray (.struct "Node")⟩]⟩,
    ⟨"Left", [⟨"root", .struct "Node"⟩, ⟨"flag", .elementary .bool⟩]⟩,
    ⟨"Right", [⟨"top", .struct "Node"⟩, ⟨"open", .elementary .bool⟩]⟩], []⟩

def level : Declaration :=
  ⟨"level", .elementary (.uint 8), none, .mutable⟩

theorem twins_interchangeable :
    twinCatalog.signature (.struct "Left") = "((uint128,struct Node[]),bool)" ∧
      (∃ l, twinCatalog.layout ([level] ++ level.withType (.struct "Left") :: [level]) = .ok l) ∧
      SignatureLaw twinCatalog [level] level [level] (.struct "Left") (.struct "Right") := by
  have names : ∀ d ∈ twinCatalog.structs, Identifier d.name := by
    have node : Identifier "Node" := ⟨⟨'N', rfl, rfl⟩, List.all_eq_true.mp rfl⟩
    have left : Identifier "Left" := ⟨⟨'L', rfl, rfl⟩, List.all_eq_true.mp rfl⟩
    have right : Identifier "Right" := ⟨⟨'R', rfl, rfl⟩, List.all_eq_true.mp rfl⟩
    simp [twinCatalog, node, left, right]
  have first : twinCatalog.signature (.struct "Left") = "((uint128,struct Node[]),bool)" := by
    decide +kernel
  have second : twinCatalog.signature (.struct "Right") = "((uint128,struct Node[]),bool)" := by
    decide +kernel
  exact ⟨first, ⟨_, rfl⟩, signature_determines_layout twinCatalog names (.struct "Left") (.struct "Right")
    rfl rfl (first.trans second.symm) [level] level [level]⟩

end ContractRegistry
