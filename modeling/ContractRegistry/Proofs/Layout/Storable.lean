import ContractRegistry.Proofs.Layout.Placed
import Mathlib.Logic.Relation

/-!
Which types a layout lets through.

A layout looks at every type that is written in a declaration and in a member of a struct that it lays
out. It stops at a struct behind a mapping or a dynamic array: that one must have members, but what they
are is not looked at unless the struct is laid out as well. So a type that cannot be stored is let
through exactly when it is written in a struct that is never laid out.
-/
namespace ContractRegistry

/-- The types written in a type: itself, and those of its elements, keys and values. -/
def TypeRef.spelled : TypeRef → List TypeRef
  | .fixedArray element length => .fixedArray element length :: element.spelled
  | .dynamicArray element => .dynamicArray element :: element.spelled
  | .mapping key value => .mapping key value :: (key.spelled ++ value.spelled)
  | ty => [ty]

namespace Catalog

/-- An array that has elements, a mapping with a built-in key, a struct that has members. -/
def Storable (c : Catalog) : TypeRef → Prop
  | .fixedArray _ length => length ≠ 0
  | .mapping key _ => ∃ kind, key = .elementary kind
  | .struct name => ∃ d, c.struct? name = some d ∧ d.fields ≠ []
  | _ => True

inductive Part (c : Catalog) : TypeRef → TypeRef → Prop where
  | fixedElement (element : TypeRef) (length : Nat) : Part c (.fixedArray element length) element
  | dynamicElement (element : TypeRef) : Part c (.dynamicArray element) element
  | key (key value : TypeRef) : Part c (.mapping key value) key
  | value (key value : TypeRef) : Part c (.mapping key value) value
  | member {name : String} {d : StructDef} {f : Field} (found : c.struct? name = some d)
      (mem : f ∈ d.fields) : Part c (.struct name) f.ty

/-- The type of a declaration in storage is made of this one, directly or through others. -/
def Reached (c : Catalog) (declarations : List Declaration) (ty : TypeRef) : Prop :=
  ∃ f ∈ stored declarations, Relation.ReflTransGen c.Part f.ty ty

/-- The struct is stored in place, in a declaration or in another struct that is. -/
inductive LaidOut (c : Catalog) (declarations : List Declaration) : String → Prop where
  | declared {f : Field} {name : String} (mem : f ∈ stored declarations)
      (inside : name ∈ f.ty.contained) : LaidOut c declarations name
  | member {outer name : String} {d : StructDef} {f : Field} (around : LaidOut c declarations outer)
      (found : c.struct? outer = some d) (mem : f ∈ d.fields) (inside : name ∈ f.ty.contained) :
      LaidOut c declarations name

variable {c : Catalog} {slots : String → LayoutResult Nat}

theorem mem_spelled_self (ty : TypeRef) : ty ∈ ty.spelled := by
  cases ty <;> exact List.mem_cons_self

theorem spelled_trans {outer middle inner : TypeRef} (first : middle ∈ outer.spelled)
    (second : inner ∈ middle.spelled) : inner ∈ outer.spelled := by
  induction outer with
  | elementary kind =>
    rw [List.mem_singleton.mp first] at second
    exact second
  | struct name =>
    rw [List.mem_singleton.mp first] at second
    exact second
  | fixedArray element length ih =>
    rcases List.mem_cons.mp first with rfl | first
    · exact second
    · exact List.mem_cons_of_mem _ (ih first)
  | dynamicArray element ih =>
    rcases List.mem_cons.mp first with rfl | first
    · exact second
    · exact List.mem_cons_of_mem _ (ih first)
  | mapping key value ihk ihv =>
    rcases List.mem_cons.mp first with rfl | first
    · exact second
    · refine List.mem_cons_of_mem _ (List.mem_append.mpr ?_)
      rcases List.mem_append.mp first with first | first
      · exact Or.inl (ihk first)
      · exact Or.inr (ihv first)

theorem checkRemote_spelled {path : String} {ty : TypeRef} (run : c.checkRemote path ty = .ok ()) :
    ∀ t ∈ ty.spelled, c.Storable t := by
  induction ty with
  | elementary kind =>
    intro t mem
    rw [List.mem_singleton.mp mem]
    trivial
  | fixedArray element length ih =>
    simp only [checkRemote] at run
    split at run
    · contradiction
    · rename_i some_elements
      exact List.forall_mem_cons.mpr ⟨some_elements, ih run⟩
  | dynamicArray element ih => exact List.forall_mem_cons.mpr ⟨trivial, ih run⟩
  | mapping key value _ ih =>
    cases key with
    | elementary kind =>
      exact List.forall_mem_cons.mpr ⟨⟨kind, rfl⟩, List.forall_mem_cons.mpr ⟨trivial, ih run⟩⟩
    | _ => simp [checkRemote] at run
  | struct name =>
    intro t mem
    rw [List.mem_singleton.mp mem]
    simp only [checkRemote] at run
    split at run
    · contradiction
    · rename_i d found
      split at run
      · contradiction
      · rename_i some_members
        exact ⟨d, found, some_members⟩

/-- Where the space of a type is known, each type written in it is looked at, and the structs in place
are measured. -/
theorem footprint_spelled (sound : ∀ name count, slots name = .ok count → c.Storable (.struct name))
    {path : String} {ty : TypeRef} {space : Footprint} (run : c.footprint slots path ty = .ok space) :
    (∀ t ∈ ty.spelled, c.Storable t) ∧ ∀ name ∈ ty.contained, ∃ count, slots name = .ok count := by
  induction ty generalizing space with
  | elementary kind =>
    refine ⟨fun t mem => ?_, by simp [TypeRef.contained]⟩
    rw [List.mem_singleton.mp mem]
    trivial
  | fixedArray element length ih =>
    obtain ⟨some_elements, _, _, measured, _, _⟩ := footprint_array.mp run
    obtain ⟨storable, known⟩ := ih measured
    exact ⟨List.forall_mem_cons.mpr ⟨some_elements, storable⟩, known⟩
  | dynamicArray element _ =>
    obtain ⟨_, checked, _⟩ := bind_eq_ok.mp run
    have whole : c.Storable (.dynamicArray element) := trivial
    exact ⟨List.forall_mem_cons.mpr ⟨whole, checkRemote_spelled checked⟩, by simp [TypeRef.contained]⟩
  | mapping key value _ _ =>
    cases key with
    | elementary kind =>
      obtain ⟨_, checked, _⟩ := bind_eq_ok.mp run
      have behind : ∀ t ∈ TypeRef.elementary kind :: value.spelled, c.Storable t :=
        List.forall_mem_cons.mpr ⟨trivial, checkRemote_spelled checked⟩
      exact ⟨List.forall_mem_cons.mpr ⟨⟨kind, rfl⟩, behind⟩, by simp [TypeRef.contained]⟩
    | _ => simp [footprint] at run
  | struct name =>
    obtain ⟨count, measured, _⟩ := bind_eq_ok.mp run
    constructor
    · intro t mem
      rw [List.mem_singleton.mp mem]
      exact sound name count measured
    · intro other mem
      rw [List.mem_singleton.mp mem]
      exact ⟨count, measured⟩

theorem measureFields_measured {owner : String} {fields : List Field} {cursor last : Cursor}
    (run : c.measureFields slots owner cursor fields = .ok last) :
    ∀ f ∈ fields, ∃ path space, c.footprint slots path f.ty = .ok space := by
  induction fields generalizing cursor with
  | nil => simp
  | cons f fs ih =>
    obtain ⟨space, measured, run⟩ := bind_eq_ok.mp run
    obtain ⟨_, _, run⟩ := bind_eq_ok.mp run
    exact List.forall_mem_cons.mpr ⟨⟨_, space, measured⟩, ih run⟩

theorem measure_measured {d : StructDef} {count : Nat} (run : c.measure slots d = .ok count) :
    d.fields ≠ [] ∧ ∀ f ∈ d.fields, ∃ path space, c.footprint slots path f.ty = .ok space := by
  obtain ⟨some_members, _, measured, _⟩ := measure_eq_ok.mp run
  exact ⟨some_members, measureFields_measured measured⟩

theorem placed_fields_measured {base : Nat} {pathOf : String → String} {cursor last : Cursor}
    {fields : List Field} {scope : Scope} (placed : Placed c slots base pathOf cursor fields last scope) :
    ∀ f ∈ fields, ∃ path space, c.footprint slots path f.ty = .ok space := by
  induction placed with
  | done => simp
  | plain seated _ _ ih => exact List.forall_mem_cons.mpr ⟨⟨_, _, seated.measured⟩, ih⟩
  | struct seated _ _ _ _ _ ih => exact List.forall_mem_cons.mpr ⟨⟨_, _, seated.measured⟩, ih⟩

variable {declarations : List Declaration} {sizes : Sizes}

theorem sizes_storable (sound : sizes.Sound c) :
    ∀ name count, sizes.slots name = .ok count → c.Storable (.struct name) := by
  intro name count known
  obtain ⟨d, found, measured⟩ := sound name count known
  exact ⟨d, found, (measure_measured measured).1⟩

theorem measured_of_laidOut (sound : sizes.Sound c)
    (placed : ∀ f ∈ stored declarations, ∃ path space, c.footprint sizes.slots path f.ty = .ok space)
    {name : String} (laidOut : c.LaidOut declarations name) :
    ∃ count, sizes.slots name = .ok count := by
  induction laidOut with
  | declared mem inside =>
    obtain ⟨_, _, measured⟩ := placed _ mem
    exact (footprint_spelled (sizes_storable sound) measured).2 _ inside
  | @member outer name d f _ found mem inside ih =>
    obtain ⟨count, known⟩ := ih
    obtain ⟨d', found', whole⟩ := sound outer count known
    obtain rfl := Option.some.inj (found.symm.trans found')
    obtain ⟨_, _, measured⟩ := (measure_measured whole).2 f mem
    exact (footprint_spelled (sizes_storable sound) measured).2 name inside

theorem laidOut_spelled (sound : sizes.Sound c)
    (placed : ∀ f ∈ stored declarations, ∃ path space, c.footprint sizes.slots path f.ty = .ok space)
    {name : String} (laidOut : c.LaidOut declarations name) {d : StructDef}
    (found : c.struct? name = some d) {f : Field} (mem : f ∈ d.fields) :
    ∀ t ∈ f.ty.spelled, c.Storable t := by
  obtain ⟨count, known⟩ := measured_of_laidOut sound placed laidOut
  obtain ⟨d', found', whole⟩ := sound name count known
  obtain rfl := Option.some.inj (found.symm.trans found')
  obtain ⟨_, _, measured⟩ := (measure_measured whole).2 f mem
  exact (footprint_spelled (sizes_storable sound) measured).1

theorem part_spelled {whole part : TypeRef} (step : c.Part whole part) :
    part ∈ whole.spelled ∨
      ∃ name d f, whole = .struct name ∧ c.struct? name = some d ∧ f ∈ d.fields ∧ part = f.ty := by
  cases step with
  | fixedElement element length => exact Or.inl (List.mem_cons_of_mem _ (mem_spelled_self _))
  | dynamicElement element => exact Or.inl (List.mem_cons_of_mem _ (mem_spelled_self _))
  | key key value =>
    exact Or.inl (List.mem_cons_of_mem _ (List.mem_append_left _ (mem_spelled_self _)))
  | value key value =>
    exact Or.inl (List.mem_cons_of_mem _ (List.mem_append_right _ (mem_spelled_self _)))
  | member found mem => exact Or.inr ⟨_, _, _, rfl, found, mem, rfl⟩

theorem reached_of_spelled {ty t : TypeRef} (reached : c.Reached declarations ty)
    (mem : t ∈ ty.spelled) : c.Reached declarations t := by
  induction ty with
  | elementary kind =>
    rw [List.mem_singleton.mp mem]
    exact reached
  | struct name =>
    rw [List.mem_singleton.mp mem]
    exact reached
  | fixedArray element length ih =>
    rcases List.mem_cons.mp mem with rfl | mem
    · exact reached
    · obtain ⟨f, declared, path⟩ := reached
      exact ih ⟨f, declared, path.tail (.fixedElement element length)⟩ mem
  | dynamicArray element ih =>
    rcases List.mem_cons.mp mem with rfl | mem
    · exact reached
    · obtain ⟨f, declared, path⟩ := reached
      exact ih ⟨f, declared, path.tail (.dynamicElement element)⟩ mem
  | mapping key value ihk ihv =>
    rcases List.mem_cons.mp mem with rfl | mem
    · exact reached
    · obtain ⟨f, declared, path⟩ := reached
      rcases List.mem_append.mp mem with mem | mem
      · exact ihk ⟨f, declared, path.tail (.key key value)⟩ mem
      · exact ihv ⟨f, declared, path.tail (.value key value)⟩ mem

/-- What is reached is written in a declaration or in a member of a struct that is reached. -/
theorem reached_spelled {t : TypeRef} (reached : c.Reached declarations t) :
    (∃ f ∈ stored declarations, t ∈ f.ty.spelled) ∨
      ∃ name d f, c.Reached declarations (.struct name) ∧ c.struct? name = some d ∧ f ∈ d.fields ∧
        t ∈ f.ty.spelled := by
  obtain ⟨g, declared, path⟩ := reached
  induction path with
  | refl => exact Or.inl ⟨g, declared, mem_spelled_self _⟩
  | @tail middle t before step ih =>
    rcases part_spelled step with written | ⟨name, d, f, rfl, found, mem, rfl⟩
    · rcases ih with ⟨f, mem, spelled⟩ | ⟨name, d, f, known, found, mem, spelled⟩
      · exact Or.inl ⟨f, mem, spelled_trans spelled written⟩
      · exact Or.inr ⟨name, d, f, known, found, mem, spelled_trans spelled written⟩
    · exact Or.inr ⟨name, d, f, ⟨g, declared, before⟩, found, mem, mem_spelled_self _⟩

end Catalog

open Catalog

/-- A layout lets no type through that cannot be stored, as far as it is written in a declaration or in a
struct that is laid out. So all that is reached can be stored exactly when all that is written in the
other structs can be. -/
structure StorableLaw (c : Catalog) (declarations : List Declaration) : Prop where
  declared : ∀ f ∈ stored declarations, ∀ t ∈ f.ty.spelled, c.Storable t
  laidOut : ∀ name d f t, c.LaidOut declarations name → c.struct? name = some d → f ∈ d.fields →
    t ∈ f.ty.spelled → c.Storable t
  storable_iff : (∀ t, c.Reached declarations t → c.Storable t) ↔
    ∀ name d f t, c.Reached declarations (.struct name) → ¬ c.LaidOut declarations name →
      c.struct? name = some d → f ∈ d.fields → t ∈ f.ty.spelled → c.Storable t

theorem layout_storable (c : Catalog) (declarations : List Declaration) (l : Layout)
    (run : c.layout declarations = .ok l) : StorableLaw c declarations := by
  obtain ⟨_, _, place, _, _⟩ := layout_placed run
  obtain ⟨sizes, sized, placed⟩ := place_placed place
  have sound := sizes_sound sized
  have measured := placed_fields_measured placed
  have declared : ∀ f ∈ stored declarations, ∀ t ∈ f.ty.spelled, c.Storable t := by
    intro f mem
    obtain ⟨_, _, footprint⟩ := measured f mem
    exact (footprint_spelled (sizes_storable sound) footprint).1
  have laidOut : ∀ name d f t, c.LaidOut declarations name → c.struct? name = some d →
      f ∈ d.fields → t ∈ f.ty.spelled → c.Storable t :=
    fun _ _ _ t inside found mem => laidOut_spelled sound measured inside found mem t
  refine ⟨declared, laidOut, ?_, ?_⟩
  · intro all name d f t reached _ found mem spelled
    obtain ⟨g, listed, path⟩ := reached
    exact all t (reached_of_spelled ⟨g, listed, path.tail (.member found mem)⟩ spelled)
  · intro others t reached
    rcases reached_spelled reached with ⟨f, mem, spelled⟩ | ⟨name, d, f, known, found, mem, spelled⟩
    · exact declared f mem t spelled
    · by_cases inside : c.LaidOut declarations name
      · exact laidOut name d f t inside found mem spelled
      · exact others name d f t known inside found mem spelled

/-- `struct Node { uint128 value; Node[] children; }` and `struct Note { string text; }` -/
def nodeCatalog : Catalog :=
  ⟨[⟨"Node", [⟨"value", .elementary (.uint 128)⟩, ⟨"children", .dynamicArray (.struct "Node")⟩]⟩,
    ⟨"Note", [⟨"text", .elementary .string⟩]⟩], []⟩

/-- `Node root;` and `mapping(address => Note) notes;` -/
def nodeDeclarations : List Declaration :=
  [⟨"root", .struct "Node", none, .mutable⟩,
    ⟨"notes", .mapping (.elementary .address) (.struct "Note"), none, .mutable⟩]

theorem node_storable :
    ∃ l, nodeCatalog.layout nodeDeclarations = .ok l ∧ StorableLaw nodeCatalog nodeDeclarations ∧
      ∀ t, nodeCatalog.Reached nodeDeclarations t → nodeCatalog.Storable t := by
  have law := layout_storable nodeCatalog nodeDeclarations _ rfl
  have written : ∀ d ∈ nodeCatalog.structs, ∀ f ∈ d.fields, ∀ t ∈ f.ty.spelled,
      nodeCatalog.Storable t := by
    simp [nodeCatalog, TypeRef.spelled, Storable, struct?]
  refine ⟨_, rfl, law, law.storable_iff.mpr ?_⟩
  intro name d f t _ _ found mem spelled
  exact written d (struct?_mem found) f mem t spelled

/-- `struct Blank {}` and `struct Outer { Blank blank; }` -/
def blankCatalog : Catalog :=
  ⟨[⟨"Blank", []⟩, ⟨"Outer", [⟨"blank", .struct "Blank"⟩]⟩], []⟩

def outers : Declaration :=
  ⟨"outers", .mapping (.elementary .address) (.struct "Outer"), none, .mutable⟩

theorem blank_reached : blankCatalog.Reached [outers] (.struct "Blank") := by
  refine ⟨outers.field, List.mem_cons_self, ?_⟩
  have value : blankCatalog.Part outers.ty (.struct "Outer") := .value _ _
  have member : blankCatalog.Part (.struct "Outer") (.struct "Blank") :=
    .member (f := ⟨"blank", .struct "Blank"⟩) rfl List.mem_cons_self
  exact .tail (.single value) member

/-- A struct behind a mapping may have a member whose struct has none. -/
theorem blank_struct_behind_mapping :
    ¬ ∀ (c : Catalog) (declarations : List Declaration) (l : Layout),
      c.layout declarations = .ok l → ∀ t, c.Reached declarations t → c.Storable t := by
  intro storable
  obtain ⟨d, found, some_members⟩ := storable blankCatalog [outers] _ rfl _ blank_reached
  obtain rfl := Option.some.inj found
  exact some_members rfl

end ContractRegistry
