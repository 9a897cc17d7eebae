import ContractRegistry.Proofs.Layout.Placed

/-!
Which assignments have a data slot.

An assignment has one when its role is that of a base slot and its signature does not begin like that of a
mapping. The signature of an array begins with that of its elements. So arrays have the data slot of a
sequence unless mappings are at the bottom of them: an array of mappings has none.
-/
namespace ContractRegistry

namespace TypeRef

/-- A type whose contents lie one behind the other, from a hashed slot on. -/
def isSequence : TypeRef → Bool
  | .dynamicArray _ => true
  | .elementary kind => kind.isDynamic
  | _ => false

def bottom : TypeRef → TypeRef
  | .fixedArray element _ => element.bottom
  | .dynamicArray element => element.bottom
  | ty => ty

def isMapping : TypeRef → Bool
  | .mapping _ _ => true
  | _ => false

end TypeRef

/-- A text that does not begin like a mapping, whatever is put behind it. -/
def Unmarked (text : String) : Prop :=
  ∃ first rest, text.toList = first :: rest ∧ first ≠ 'm'

theorem unmarked_append {text : String} (unmarked : Unmarked text) (more : String) :
    Unmarked (text ++ more) := by
  obtain ⟨first, rest, begins, other⟩ := unmarked
  refine ⟨first, rest ++ more.toList, ?_, other⟩
  rw [String.toList_append, begins, List.cons_append]

theorem unmarked_name (kind : Elementary) : Unmarked kind.name := by
  cases kind with
  | bool => exact ⟨'b', _, rfl, by decide⟩
  | uint bits => exact unmarked_append ⟨'u', _, rfl, by decide⟩ _
  | int bits => exact unmarked_append ⟨'i', _, rfl, by decide⟩ _
  | address => exact ⟨'a', _, rfl, by decide⟩
  | fixedBytes width => exact unmarked_append ⟨'b', _, rfl, by decide⟩ _
  | bytes => exact ⟨'b', _, rfl, by decide⟩
  | string => exact ⟨'s', _, rfl, by decide⟩

namespace Catalog

theorem unmarked_structText (c : Catalog) (depth : Nat) (opened : List String) (name : String) :
    Unmarked (c.structText depth opened name) := by
  have byName : Unmarked (structByName name) := unmarked_append ⟨'s', _, rfl, by decide⟩ name
  cases depth with
  | zero => exact byName
  | succ depth =>
    simp only [structText]
    split
    · split
      · exact byName
      · exact unmarked_append (unmarked_append ⟨'(', _, rfl, by decide⟩ _) _
    · exact byName

theorem text_of_mapping (struct : String → String) {ty : TypeRef}
    (mapping : ty.bottom.isMapping = true) :
    ∃ rest, (ty.text struct).toList = "mapping(".toList ++ rest := by
  induction ty with
  | elementary kind => contradiction
  | struct name => contradiction
  | mapping key value _ _ =>
    simp only [TypeRef.text, String.toList_append, List.append_assoc]
    exact ⟨_, rfl⟩
  | dynamicArray element ih =>
    obtain ⟨rest, begins⟩ := ih mapping
    simp only [TypeRef.text, String.toList_append, begins, List.append_assoc]
    exact ⟨_, rfl⟩
  | fixedArray element length ih =>
    obtain ⟨rest, begins⟩ := ih mapping
    simp only [TypeRef.text, String.toList_append, begins, List.append_assoc]
    exact ⟨_, rfl⟩

theorem unmarked_text {struct : String → String} (structs : ∀ name, Unmarked (struct name))
    {ty : TypeRef} (other : ty.bottom.isMapping = false) : Unmarked (ty.text struct) := by
  induction ty with
  | elementary kind => exact unmarked_name kind
  | struct name => exact structs name
  | mapping key value _ _ => contradiction
  | dynamicArray element ih => exact unmarked_append (ih other) _
  | fixedArray element length ih =>
    exact unmarked_append (unmarked_append (unmarked_append (ih other) _) _) _

theorem assignment_isMapping (c : Catalog) (e : Entry) :
    (c.assignment e).isMapping = e.ty.bottom.isMapping := by
  cases bottom : e.ty.bottom.isMapping with
  | true =>
    obtain ⟨rest, begins⟩ := text_of_mapping (c.structText c.structs.length []) bottom
    simp only [Assignment.isMapping, assignment, signature, begins]
    exact List.isPrefixOf_iff_prefix.mpr (List.prefix_append _ _)
  | false =>
    obtain ⟨first, rest, begins, other⟩ :=
      unmarked_text (c.unmarked_structText c.structs.length []) bottom
    have differs : ('m' == first) = false := beq_false_of_ne (Ne.symm other)
    have letters : "mapping(".toList = 'm' :: "apping(".toList := rfl
    simp only [Assignment.isMapping, assignment, signature, begins]
    rw [letters, List.isPrefixOf_cons_cons, differs, Bool.false_and]

theorem role_baseSlot_iff (ty : TypeRef) :
    ty.role = .baseSlot ∧ ty.bottom.isMapping = false ↔
      ty.isSequence = true ∧ ty.bottom.isMapping = false := by
  cases ty with
  | elementary kind => cases kind <;> simp [TypeRef.role, TypeRef.isSequence, Elementary.isDynamic]
  | fixedArray element length => simp [TypeRef.role, TypeRef.isSequence]
  | dynamicArray element => simp [TypeRef.role, TypeRef.isSequence]
  | mapping key value => simp [TypeRef.bottom, TypeRef.isMapping]
  | struct name => simp [TypeRef.role, TypeRef.isSequence]

theorem assignment_dataSlot? (c : Catalog) (e : Entry) :
    (c.assignment e).dataSlot? =
      if e.ty.isSequence = true ∧ e.ty.bottom.isMapping = false then
        some (ChildSlot.arrayData (ChildSlot.slotKey e.slot))
      else none := by
  have role : (c.assignment e).role = e.ty.role := rfl
  have key : (c.assignment e).key = ChildSlot.slotKey e.slot := rfl
  simp only [Assignment.dataSlot?, assignment_isMapping, role, key, role_baseSlot_iff]

end Catalog

/-- A type that is declared with a variable in storage or with a member of a struct. -/
def DeclaredType (c : Catalog) (declarations : List Declaration) (ty : TypeRef) : Prop :=
  (∃ f ∈ Catalog.stored declarations, f.ty = ty) ∨ ∃ d ∈ c.structs, ∃ f ∈ d.fields, f.ty = ty

theorem placed_declared {c : Catalog} {slots : String → LayoutResult Nat} {base : Nat}
    {pathOf : String → String} {cursor last : Cursor} {fields : List Field} {scope : Scope}
    (known : TypeRef → Prop) (structs : ∀ d ∈ c.structs, ∀ f ∈ d.fields, known f.ty)
    (placed : Placed c slots base pathOf cursor fields last scope)
    (declared : ∀ f ∈ fields, known f.ty) : ∀ e ∈ scope.listed, known e.ty := by
  refine @placed_listed c slots (fun e => known e.ty) known (fun _ => True) structs trivial
    (fun first _ seated => ⟨?_, trivial⟩) base pathOf cursor last fields scope placed declared trivial
  simp only [seated.ty_eq]
  exact first

/-- The data slot of an entry goes by its type: sequences have one, except arrays with mappings at the
bottom. -/
structure DataSlotLaw (c : Catalog) (declarations : List Declaration) (e : Entry) : Prop where
  declared : DeclaredType c declarations e.ty
  told : (c.assignment e).dataSlot? =
    if e.ty.isSequence = true ∧ e.ty.bottom.isMapping = false then
      some (ChildSlot.arrayData (ChildSlot.slotKey e.slot))
    else none
  right_iff : ((c.assignment e).dataSlot? =
      if e.ty.isSequence = true then some (ChildSlot.arrayData (ChildSlot.slotKey e.slot)) else none) ↔
    ¬ (e.ty.isSequence = true ∧ e.ty.bottom.isMapping = true)

theorem dataSlot_of_type (c : Catalog) (declarations : List Declaration) (l : Layout)
    (run : c.layout declarations = .ok l) :
    ∃ cursor scope, c.place declarations = .ok (cursor, scope) ∧
      l.assignments = scope.listed.map c.assignment ∧
      ∀ e ∈ scope.listed, DataSlotLaw c declarations e := by
  obtain ⟨cursor, scope, place, listed, _⟩ := Catalog.layout_placed run
  obtain ⟨sizes, _, placed⟩ := Catalog.place_placed place
  have declared := placed_declared (DeclaredType c declarations)
    (fun d mem f field => Or.inr ⟨d, mem, f, field, rfl⟩) placed
    (fun f mem => Or.inl ⟨f, mem, rfl⟩)
  refine ⟨cursor, scope, place, listed, fun e mem => ⟨declared e mem, c.assignment_dataSlot? e, ?_⟩⟩
  rw [c.assignment_dataSlot? e]
  cases e.ty.isSequence <;> cases e.ty.bottom.isMapping <;> simp

def ledgers : Declaration :=
  ⟨"ledgers", .dynamicArray (.mapping (.elementary .address) (.elementary (.uint 256))), none, .mutable⟩

/-- `address[] holders; mapping(address => uint256)[] ledgers; string title;` -/
def hashedDeclarations : List Declaration :=
  [⟨"holders", .dynamicArray (.elementary .address), none, .mutable⟩, ledgers,
    ⟨"title", .elementary .string, none, .mutable⟩]

theorem hashed_data_slots :
    ∃ l, Catalog.empty.layout hashedDeclarations = .ok l ∧
      l.assignments.map (fun a => (a.slot, a.dataSlot?.isSome)) = [(0, true), (1, false), (2, true)] ∧
      ∃ cursor scope, Catalog.empty.place hashedDeclarations = .ok (cursor, scope) ∧
        l.assignments = scope.listed.map Catalog.empty.assignment ∧
        ∀ e ∈ scope.listed, DataSlotLaw Catalog.empty hashedDeclarations e :=
  ⟨_, rfl, by decide, dataSlot_of_type Catalog.empty hashedDeclarations _ rfl⟩

def ledgersEntry : Entry :=
  ⟨"ledgers", ledgers.ty, .slots 1, 0, 0⟩

/-- An array of mappings is a sequence, and has no data slot. -/
theorem mapping_array_lacks_data_slot :
    ¬ ∀ (c : Catalog) (declarations : List Declaration) (l : Layout),
      c.layout declarations = .ok l → ∃ cursor scope,
        c.place declarations = .ok (cursor, scope) ∧ l.assignments = scope.listed.map c.assignment ∧
        ∀ e ∈ scope.listed, (c.assignment e).dataSlot? =
          if e.ty.isSequence = true then some (ChildSlot.arrayData (ChildSlot.slotKey e.slot))
          else none := by
  intro right
  obtain ⟨cursor, scope, place, _, told⟩ := right Catalog.empty [ledgers] _ rfl
  have placed : Catalog.empty.place [ledgers] = .ok (⟨1, 0⟩, .entry ledgersEntry .empty .empty) := rfl
  obtain ⟨_, rfl⟩ := Prod.mk.inj (Except.ok.inj (placed.symm.trans place))
  have first := told ledgersEntry List.mem_cons_self
  rw [Catalog.assignment_dataSlot?] at first
  simp [ledgersEntry, ledgers, TypeRef.isSequence, TypeRef.bottom, TypeRef.isMapping] at first

end ContractRegistry
