import ContractRegistry.Layout.Placement
import ContractRegistry.Proofs.Layout.Cursor

/-!
The space of types.

The space of a type does not depend on the path, which is told in errors only, nor on the structs that
are not in the type. So a struct keeps the size that it was measured with when more structs are
measured: at the end every size is that of the members, by the sizes of the structs among them.
-/
namespace ContractRegistry

/-- A built-in value takes at least a byte and at most a slot. -/
def Elementary.Sized (e : Elementary) : Prop :=
  ∀ size, e.packedSize? = some size → 1 ≤ size ∧ size ≤ slotBytes

namespace TypeRef

def Sized : TypeRef → Prop
  | .elementary kind => kind.Sized
  | .fixedArray element _ => element.Sized
  | .dynamicArray element => element.Sized
  | .mapping key value => key.Sized ∧ value.Sized
  | .struct _ => True

/-- Bytes taken inside a slot, or nothing for a type that takes slots of its own. -/
def packedSize? : TypeRef → Option Nat
  | .elementary kind => kind.packedSize?
  | _ => none

end TypeRef

namespace Catalog

/-- All built-in values in members of structs have a size that fits in a slot. -/
def Sized (c : Catalog) : Prop :=
  ∀ d ∈ c.structs, ∀ f ∈ d.fields, f.ty.Sized

theorem struct?_mem {c : Catalog} {name : String} {d : StructDef} (found : c.struct? name = some d) :
    d ∈ c.structs :=
  List.mem_of_find?_eq_some found

def Extends (new old : String → LayoutResult Nat) : Prop :=
  ∀ name count, old name = .ok count → new name = .ok count

variable {c : Catalog} {old new : String → LayoutResult Nat}

theorem extends_refl (slots : String → LayoutResult Nat) : Extends slots slots :=
  fun _ _ run => run

theorem checkRemote_any_path {path : String} {ty : TypeRef} (run : c.checkRemote path ty = .ok ())
    (other : String) : c.checkRemote other ty = .ok () := by
  induction ty with
  | elementary kind => rfl
  | fixedArray element length ih =>
    simp only [checkRemote] at run ⊢
    split at run
    · simp at run
    · rename_i some_elements
      rw [if_neg some_elements]
      exact ih run
  | dynamicArray element ih => exact ih run
  | mapping key value _ ih =>
    cases key with
    | elementary kind => exact ih run
    | _ => simp [checkRemote] at run
  | struct name => exact run

theorem arraySlots_any_path {path : String} {length count : Nat} {each : Footprint}
    (run : arraySlots path length each = .ok count) (other : String) :
    arraySlots other length each = .ok count := by
  cases each with
  | packed size =>
    simp only [arraySlots] at run ⊢
    split at run
    · simp at run
    · rename_i divides
      rw [if_neg divides]
      exact run
  | slots each =>
    simp only [arraySlots] at run ⊢
    split at run
    · exact run
    · simp at run

theorem footprint_array {slots : String → LayoutResult Nat} {path : String} {element : TypeRef}
    {length : Nat} {space : Footprint} :
    c.footprint slots path (.fixedArray element length) = .ok space ↔
      length ≠ 0 ∧ ∃ each count, c.footprint slots path element = .ok each ∧
        arraySlots path length each = .ok count ∧ space = .slots count := by
  simp only [footprint]
  constructor
  · intro run
    split at run
    · contradiction
    · rename_i some_elements
      obtain ⟨each, measured, run⟩ := bind_eq_ok.mp run
      obtain ⟨count, counted, eq⟩ := bind_eq_ok.mp run
      exact ⟨some_elements, each, count, measured, counted, (Except.ok.inj eq).symm⟩
  · rintro ⟨some_elements, each, count, measured, counted, rfl⟩
    rw [if_neg some_elements]
    exact bind_eq_ok.mpr ⟨each, measured, bind_eq_ok.mpr ⟨count, counted, rfl⟩⟩

theorem footprint_extends (more : Extends new old) {path : String} {ty : TypeRef}
    {space : Footprint} (run : c.footprint old path ty = .ok space) (other : String) :
    c.footprint new other ty = .ok space := by
  induction ty generalizing space with
  | elementary kind => exact run
  | fixedArray element length ih =>
    obtain ⟨some_elements, each, count, measured, counted, rfl⟩ := footprint_array.mp run
    exact footprint_array.mpr
      ⟨some_elements, each, count, ih measured, arraySlots_any_path counted other, rfl⟩
  | dynamicArray element _ =>
    obtain ⟨_, checked, eq⟩ := bind_eq_ok.mp run
    exact bind_eq_ok.mpr ⟨(), checkRemote_any_path checked other, eq⟩
  | mapping key value _ _ =>
    cases key with
    | elementary kind =>
      obtain ⟨_, checked, eq⟩ := bind_eq_ok.mp run
      exact bind_eq_ok.mpr ⟨(), checkRemote_any_path checked other, eq⟩
    | _ => simp [footprint] at run
  | struct name =>
    obtain ⟨count, measured, eq⟩ := bind_eq_ok.mp run
    exact bind_eq_ok.mpr ⟨count, more name count measured, eq⟩

theorem footprint_packed_iff {slots : String → LayoutResult Nat} {path : String} {ty : TypeRef}
    {space : Footprint} (run : c.footprint slots path ty = .ok space) (size : Nat) :
    space = .packed size ↔ ty.packedSize? = some size := by
  cases ty with
  | elementary kind =>
    simp only [footprint, TypeRef.packedSize?] at run ⊢
    split at run <;> rename_i packs <;> rw [packs, ← Except.ok.inj run] <;> simp
  | fixedArray element length =>
    obtain ⟨_, each, count, _, _, rfl⟩ := footprint_array.mp run
    simp [TypeRef.packedSize?]
  | dynamicArray element =>
    obtain ⟨_, _, eq⟩ := bind_eq_ok.mp run
    simp [TypeRef.packedSize?, ← Except.ok.inj eq]
  | mapping key value =>
    cases key with
    | elementary kind =>
      obtain ⟨_, _, eq⟩ := bind_eq_ok.mp run
      simp [TypeRef.packedSize?, ← Except.ok.inj eq]
    | _ => simp [footprint] at run
  | struct name =>
    obtain ⟨count, _, eq⟩ := bind_eq_ok.mp run
    simp [TypeRef.packedSize?, ← Except.ok.inj eq]

theorem footprint_sized {slots : String → LayoutResult Nat} {path : String} {ty : TypeRef}
    {space : Footprint} (sized : ty.Sized) (run : c.footprint slots path ty = .ok space) :
    space.Sized := by
  cases space with
  | slots count => trivial
  | packed size =>
    have packs := (footprint_packed_iff run size).mp rfl
    cases ty with
    | elementary kind => exact sized size packs
    | _ => simp [TypeRef.packedSize?] at packs

theorem arraySlots_values {path : String} {length width count : Nat}
    (run : arraySlots path length (.packed width) = .ok count) : 0 < width ∧ width ≤ slotBytes ∧
      count = (length + slotBytes / width - 1) / (slotBytes / width) := by
  simp only [arraySlots] at run
  split at run
  · contradiction
  · rename_i fits
    exact ⟨by omega, by omega, (Except.ok.inj run).symm⟩

theorem arraySlots_blocks {path : String} {length each count : Nat}
    (run : arraySlots path length (.slots each) = .ok count) : count = length * each := by
  simp only [arraySlots] at run
  split at run
  · rename_i total numbered
    rw [(Cursor.slotNumber?_eq_some.mp numbered).2]
    exact (Except.ok.inj run).symm
  · contradiction

/-- To measure members is to allot space to the first and to measure the others behind it. -/
theorem measureFields_cons {slots : String → LayoutResult Nat} {path : String} {f : Field}
    {space : Footprint} {cursor place next : Cursor} (measured : c.footprint slots path f.ty = .ok space)
    (allotted : cursor.allot path space = .ok (place, next)) (owner : String) (fs : List Field) :
    c.measureFields slots owner cursor (f :: fs) = c.measureFields slots owner next fs := by
  have space' := footprint_extends (extends_refl slots) measured (memberPath owner f.name)
  have places := Cursor.allot_any_path allotted (memberPath owner f.name)
  simp only [measureFields, bind, Except.bind, space', places]

theorem measureFields_extends (more : Extends new old) {owner : String} {fields : List Field}
    {cursor last : Cursor} (run : c.measureFields old owner cursor fields = .ok last)
    (other : String) : c.measureFields new other cursor fields = .ok last := by
  induction fields generalizing cursor with
  | nil => exact run
  | cons f fs ih =>
    obtain ⟨space, measured, run⟩ := bind_eq_ok.mp run
    obtain ⟨⟨place, next⟩, allotted, run⟩ := bind_eq_ok.mp run
    rw [measureFields_cons (footprint_extends more measured _) allotted]
    exact ih run

theorem measureFields_slot {slots : String → LayoutResult Nat} {owner : String}
    {cursor last : Cursor} {fields : List Field}
    (run : c.measureFields slots owner cursor fields = .ok last) :
    cursor.slot ≤ last.slot ∧ (cursor.slot < Numeral.limit64 → last.slot < Numeral.limit64) := by
  induction fields generalizing cursor with
  | nil =>
    obtain rfl := Except.ok.inj run
    exact ⟨Nat.le_refl _, id⟩
  | cons f fs ih =>
    obtain ⟨space, _, run⟩ := bind_eq_ok.mp run
    obtain ⟨⟨place, next⟩, allotted, run⟩ := bind_eq_ok.mp run
    have step := Cursor.allot_slot_le allotted
    have rest := ih run
    exact ⟨by omega, fun small => rest.2 (Cursor.allot_slot_lt small allotted)⟩

theorem measure_eq_ok {slots : String → LayoutResult Nat} {d : StructDef} {count : Nat} :
    c.measure slots d = .ok count ↔ d.fields ≠ [] ∧
      ∃ last, c.measureFields slots d.name .start d.fields = .ok last ∧ last.slotsUsed = .ok count := by
  unfold measure
  split
  · rename_i no_members
    simp [no_members]
  · rename_i some_members
    rw [bind_eq_ok]
    exact (and_iff_right some_members).symm

theorem measure_extends (more : Extends new old) {d : StructDef} {count : Nat}
    (run : c.measure old d = .ok count) : c.measure new d = .ok count := by
  obtain ⟨some_members, last, measured, used⟩ := measure_eq_ok.mp run
  exact measure_eq_ok.mpr ⟨some_members, last, measureFields_extends more measured _, used⟩

namespace Sizes

def Sound (c : Catalog) (sizes : Sizes) : Prop :=
  ∀ name count, sizes.slots name = .ok count →
    ∃ d, c.struct? name = some d ∧ c.measure sizes.slots d = .ok count

theorem sound_nil (c : Catalog) : Sound c [] := by
  intro name count run
  simp [slots] at run

theorem slots_cons (sizes : Sizes) (known : String) (r : LayoutResult Nat) (name : String) :
    slots ((known, r) :: sizes) name = if name = known then r else sizes.slots name := by
  by_cases same : name = known
  · simp [slots, same]
  · simp [slots, List.lookup_cons, same, beq_false_of_ne same]

theorem extends_cons {sizes : Sizes} (sound : Sound c sizes) {name : String} {d : StructDef}
    (found : c.struct? name = some d) :
    Extends (slots ((name, c.measure sizes.slots d) :: sizes)) sizes.slots := by
  intro other count run
  rw [slots_cons]
  split
  · rename_i same
    subst same
    -- A struct that was measured before gets the same size again.
    obtain ⟨e, again, measured⟩ := sound other count run
    rw [found] at again
    rw [Option.some.inj again]
    exact measured
  · exact run

theorem sound_cons {sizes : Sizes} (sound : Sound c sizes) {name : String} {d : StructDef}
    (found : c.struct? name = some d) : Sound c ((name, c.measure sizes.slots d) :: sizes) := by
  have more := extends_cons sound found
  intro other count run
  rw [slots_cons] at run
  split at run
  · rename_i same
    subst same
    exact ⟨d, found, measure_extends more run⟩
  · obtain ⟨e, known, measured⟩ := sound other count run
    exact ⟨e, known, measure_extends more measured⟩

end Sizes

theorem measureAll_sound {sizes : Sizes} (sound : sizes.Sound c) (names : List String) :
    (c.measureAll sizes names).Sound c := by
  induction names generalizing sizes with
  | nil => exact sound
  | cons name names ih =>
    simp only [measureAll]
    split
    · rename_i d found
      exact ih (Sizes.sound_cons sound found)
    · exact ih sound

theorem sizes_sound {sizes : Sizes} (run : c.sizes = .ok sizes) : sizes.Sound c := by
  obtain ⟨order, _, eq⟩ := bind_eq_ok.mp run
  rw [← Except.ok.inj eq]
  exact measureAll_sound (Sizes.sound_nil c) order

end Catalog

end ContractRegistry
