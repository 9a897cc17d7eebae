import ContractRegistry.Catalog.Containment
import ContractRegistry.Proofs.Outcome
import Mathlib.Data.List.Chain
import Mathlib.Data.List.Nodup
import Mathlib.Logic.Relation

/-!
Which catalogs are valid.

The walk over the structs keeps two lists. The open structs are a chain, each stored in the one around
it, so one that is met again closes a cycle. The finished structs have all that they store finished
before them, so no cycle goes through them. A catalog is valid exactly when its members mention
registered structs only and no struct contains itself; otherwise the walk shows a cycle.
-/
namespace ContractRegistry

namespace TypeRef

inductive Mentions : TypeRef → String → Prop where
  | struct (name : String) : Mentions (.struct name) name
  | fixedElement {element : TypeRef} {name : String} (length : Nat) (inside : element.Mentions name) :
      Mentions (.fixedArray element length) name
  | dynamicElement {element : TypeRef} {name : String} (inside : element.Mentions name) :
      Mentions (.dynamicArray element) name
  | key {key : TypeRef} {name : String} (value : TypeRef) (inside : key.Mentions name) :
      Mentions (.mapping key value) name
  | value {value : TypeRef} {name : String} (key : TypeRef) (inside : value.Mentions name) :
      Mentions (.mapping key value) name

/-- A type stores a struct in place: it is the struct, or an array of fixed length of such. -/
inductive Stores : TypeRef → String → Prop where
  | struct (name : String) : Stores (.struct name) name
  | element {element : TypeRef} {name : String} (length : Nat) (inside : element.Stores name) :
      Stores (.fixedArray element length) name

theorem mem_referenced_iff {ty : TypeRef} {name : String} : name ∈ ty.referenced ↔ ty.Mentions name := by
  constructor
  · intro mem
    induction ty with
    | elementary kind => contradiction
    | fixedArray element length ih => exact .fixedElement length (ih mem)
    | dynamicArray element ih => exact .dynamicElement (ih mem)
    | mapping key value ihk ihv =>
      rcases List.mem_append.mp mem with mem | mem
      · exact .key value (ihk mem)
      · exact .value key (ihv mem)
    | struct other =>
      rw [List.mem_singleton.mp mem]
      exact .struct other
  · intro mentions
    induction mentions with
    | struct name => exact List.mem_singleton_self name
    | fixedElement _ _ ih => exact ih
    | dynamicElement _ ih => exact ih
    | key _ _ ih => exact List.mem_append_left _ ih
    | value _ _ ih => exact List.mem_append_right _ ih

theorem mem_contained_iff {ty : TypeRef} {name : String} : name ∈ ty.contained ↔ ty.Stores name := by
  constructor
  · intro mem
    induction ty with
    | fixedArray element length ih => exact .element length (ih mem)
    | struct other =>
      rw [List.mem_singleton.mp mem]
      exact .struct other
    | elementary kind => contradiction
    | dynamicArray element _ => contradiction
    | mapping key value _ _ => contradiction
  · intro stores
    induction stores with
    | struct name => exact List.mem_singleton_self name
    | element _ _ ih => exact ih

end TypeRef

namespace Catalog

def Registered (c : Catalog) (name : String) : Prop :=
  ∃ d ∈ c.structs, d.name = name

def Contains (c : Catalog) (outer inner : String) : Prop :=
  ∃ d, c.struct? outer = some d ∧ ∃ f ∈ d.fields, f.ty.Stores inner

/-- Structs that each contain the next, from one struct back to it, and no other twice. -/
structure Cycle (c : Catalog) (path : List String) : Prop where
  some_step : 2 ≤ path.length
  closed : path.head? = path.getLast?
  distinct : path.dropLast.Nodup
  contains : path.IsChain c.Contains

variable {c : Catalog}

theorem hasStruct_iff {name : String} : c.hasStruct name = true ↔ c.Registered name := by
  simp [hasStruct, struct?, Registered]

theorem registered_of_struct? {name : String} {d : StructDef} (found : c.struct? name = some d) :
    c.Registered name :=
  hasStruct_iff.mp (by simp [hasStruct, found])

theorem contains_iff {outer inner : String} :
    c.Contains outer inner ↔ ∃ d, c.struct? outer = some d ∧ inner ∈ d.contained := by
  simp only [Contains, StructDef.contained, List.mem_flatMap, TypeRef.mem_contained_iff]

theorem registered_of_contains {outer inner : String} (contains : c.Contains outer inner) :
    c.Registered outer := by
  obtain ⟨d, found, _⟩ := contains
  exact registered_of_struct? found

/-- Structs in the order in which a walk finishes them, the last first: what one contains is finished
before it, as far as it is registered. -/
inductive Finished (c : Catalog) : List String → Prop where
  | nil : Finished c []
  | cons {name : String} {d : StructDef} {done : List String} (found : c.struct? name = some d)
      (fresh : name ∉ done)
      (inside : ∀ child ∈ d.contained, c.hasStruct child = true → child ∈ done)
      (before : Finished c done) : Finished c (name :: done)

theorem finished_closed {done : List String} (finished : Finished c done)
    {outer inner : String} (mem : outer ∈ done) (contains : c.Contains outer inner)
    (registered : c.Registered inner) : inner ∈ done := by
  induction finished with
  | nil => contradiction
  | cons found _ inside _ ih =>
    rcases List.mem_cons.mp mem with rfl | mem
    · obtain ⟨d, known, child⟩ := contains_iff.mp contains
      obtain rfl := Option.some.inj (found.symm.trans known)
      exact List.mem_cons_of_mem _ (inside inner child (hasStruct_iff.mpr registered))
    · exact List.mem_cons_of_mem _ (ih mem)

theorem finished_closed_trans {done : List String}
    (finished : Finished c done) {outer inner : String} (path : Relation.TransGen c.Contains outer inner)
    (mem : outer ∈ done) (registered : c.Registered inner) : inner ∈ done := by
  induction path using Relation.TransGen.head_induction_on with
  | single contains => exact finished_closed finished mem contains registered
  | head contains path ih =>
    obtain ⟨_, step, _⟩ := Relation.TransGen.head'_iff.mp path
    have between := registered_of_contains step
    exact ih (finished_closed finished mem contains between)

theorem finished_acyclic {done : List String} (finished : Finished c done) :
    ∀ name ∈ done, ¬ Relation.TransGen c.Contains name name := by
  induction finished with
  | nil => simp
  | @cons name d done found fresh inside before ih =>
    refine List.forall_mem_cons.mpr ⟨fun cycle => ?_, ih⟩
    -- The first step of a cycle leads to what is finished before, and from there it cannot lead back.
    obtain ⟨child, first, rest⟩ := Relation.TransGen.head'_iff.mp cycle
    obtain ⟨d', known, stored⟩ := contains_iff.mp first
    obtain rfl := Option.some.inj (found.symm.trans known)
    have registered := registered_of_contains first
    rcases Relation.reflTransGen_iff_eq_or_transGen.mp rest with rfl | rest
    · exact fresh (inside _ stored (hasStruct_iff.mpr registered))
    · obtain ⟨_, step, _⟩ := Relation.TransGen.head'_iff.mp rest
      have finishedChild := inside child stored (hasStruct_iff.mpr (registered_of_contains step))
      exact fresh (finished_closed_trans before rest finishedChild registered)

structure Open (c : Catalog) (opened : List String) : Prop where
  distinct : opened.Nodup
  registered : ∀ name ∈ opened, c.Registered name

def Nests (c : Catalog) (names : List String) : Prop :=
  names.IsChain fun inner outer => c.Contains outer inner

theorem open_length_le {opened : List String} (isOpen : c.Open opened) :
    opened.length ≤ c.structs.length := by
  have within : opened ⊆ c.structs.map StructDef.name := by
    intro name mem
    obtain ⟨d, registered, rfl⟩ := isOpen.registered name mem
    exact List.mem_map_of_mem registered
  simpa using isOpen.distinct.length_le_of_subset within

theorem eq_takeWhile_append {names : List String} {name : String} (mem : name ∈ names) :
    ∃ outer, names = names.takeWhile (fun other => other ≠ name) ++ name :: outer := by
  induction names with
  | nil => contradiction
  | cons first rest ih =>
    by_cases same : first = name
    · exact ⟨rest, by simp [same]⟩
    · obtain ⟨outer, eq⟩ := ih ((List.mem_cons.mp mem).resolve_left (Ne.symm same))
      refine ⟨outer, ?_⟩
      rw [List.takeWhile_cons_of_pos (by simpa using same), List.cons_append, ← eq]

theorem cycle_of_opened {opened : List String} {name : String} (isOpen : c.Open opened)
    (nests : c.Nests (name :: opened)) (again : name ∈ opened) :
    c.Cycle (cycleThrough name opened) := by
  obtain ⟨outer, split⟩ := eq_takeWhile_append again
  unfold cycleThrough
  generalize opened.takeWhile (fun other => other ≠ name) = inner at split ⊢
  subst split
  have onward : (name :: (inner ++ [name]) ++ outer).IsChain fun inner outer => c.Contains outer inner := by
    simpa [Nests] using nests
  have path : name :: inner.reverse ++ [name] = (name :: (inner ++ [name])).reverse := by simp
  constructor
  · simp
  · rw [List.getLast?_concat]
    rfl
  · have once : (inner ++ [name]).Nodup := isOpen.distinct.sublist (by simp)
    rw [List.dropLast_concat]
    simpa using List.nodup_reverse.mpr once
  · rw [path, List.isChain_reverse]
    exact onward.left_of_append

/-- What a walk that does not fail leaves: more is finished, and among it all that was wanted. -/
structure Walked (c : Catalog) (opened done wanted done' : List String) : Prop where
  finished : c.Finished done'
  kept : done ⊆ done'
  closed : ∀ name ∈ done', name ∉ opened
  covered : ∀ name ∈ wanted, c.Registered name → name ∈ done'

def Walks (c : Catalog) (opened done wanted : List String) (run : Except CatalogError (List String)) :
    Prop :=
  (∃ done', run = .ok done' ∧ c.Walked opened done wanted done') ∨
    ∃ path, run = .error (.cyclicStruct path) ∧ c.Cycle path

theorem walks_foldlM {opened : List String}
    {step : List String → String → Except CatalogError (List String)} {names : List String}
    (steps : ∀ name ∈ names, ∀ done, c.Finished done → (∀ other ∈ done, other ∉ opened) →
      c.Walks opened done [name] (step done name))
    {done : List String} (finished : c.Finished done) (closed : ∀ other ∈ done, other ∉ opened) :
    c.Walks opened done names (names.foldlM step done) := by
  induction names generalizing done with
  | nil => exact .inl ⟨done, rfl, finished, List.Subset.refl _, closed, by simp⟩
  | cons name names ih =>
    rw [List.foldlM_cons]
    rcases steps name List.mem_cons_self done finished closed with ⟨next, run, first⟩ | ⟨path, run, cycle⟩
    · have later := ih (fun other mem => steps other (List.mem_cons_of_mem _ mem)) first.finished
        first.closed
      rw [run]
      rcases later with ⟨done', rest, walked⟩ | failed
      · refine .inl ⟨done', rest, walked.finished, List.Subset.trans first.kept walked.kept, walked.closed, ?_⟩
        intro other mem registered
        rcases List.mem_cons.mp mem with rfl | mem
        · exact walked.kept (first.covered other (List.mem_singleton_self _) registered)
        · exact walked.covered other mem registered
      · exact .inr failed
    · rw [run]
      exact .inr ⟨path, rfl, cycle⟩

/-- Open structs have different names that are all registered, so the walk ends before its depth. -/
theorem visit_walks {depth : Nat} {opened done : List String} {name : String}
    (isOpen : c.Open opened) (nests : c.Nests (name :: opened))
    (enough : c.structs.length < depth + opened.length) (finished : c.Finished done)
    (closed : ∀ other ∈ done, other ∉ opened) :
    c.Walks opened done [name] (c.visit depth opened done name) := by
  induction depth generalizing opened done name with
  | zero =>
    have := open_length_le isOpen
    omega
  | succ depth ih =>
    simp only [visit]
    split
    · rename_i already
      exact .inl ⟨done, rfl, finished, List.Subset.refl _, closed, by simpa using fun _ => already⟩
    split
    · rename_i again
      exact .inr ⟨_, rfl, cycle_of_opened isOpen nests again⟩
    rename_i fresh unopened
    split
    · rename_i absent
      refine .inl ⟨done, rfl, finished, List.Subset.refl _, closed, ?_⟩
      intro other mem registered
      rw [List.mem_singleton.mp mem, ← hasStruct_iff, hasStruct, absent] at registered
      contradiction
    · rename_i d found
      have isOpen' : c.Open (name :: opened) :=
        ⟨List.nodup_cons.mpr ⟨unopened, isOpen.distinct⟩,
          List.forall_mem_cons.mpr ⟨registered_of_struct? found, isOpen.registered⟩⟩
      have closed' : ∀ other ∈ done, other ∉ name :: opened := by
        intro other mem again
        rcases List.mem_cons.mp again with rfl | again
        · exact fresh mem
        · exact closed other mem again
      have children : c.Walks (name :: opened) done d.contained
          (d.contained.foldlM (fun done child => c.visit depth (name :: opened) done child) done) := by
        refine walks_foldlM (fun child stored done finished closed => ?_) finished closed'
        have inside : c.Contains name child := contains_iff.mpr ⟨d, found, stored⟩
        exact ih isOpen' (.cons_cons inside nests) (by simp only [List.length_cons]; omega) finished closed
      rcases children with ⟨done', run, walked⟩ | ⟨path, run, cycle⟩
      · rw [run]
        have new : name ∉ done' := fun mem => walked.closed name mem List.mem_cons_self
        refine .inl ⟨name :: done', rfl, ?_, ?_, ?_, ?_⟩
        · refine .cons found new (fun child stored registered => ?_) walked.finished
          exact walked.covered child stored (hasStruct_iff.mp registered)
        · exact List.subset_cons_of_subset _ walked.kept
        · refine List.forall_mem_cons.mpr ⟨unopened, fun other mem again => ?_⟩
          exact walked.closed other mem (List.mem_cons_of_mem _ again)
        · intro other mem _
          rw [List.mem_singleton.mp mem]
          exact List.mem_cons_self
      · rw [run]
        exact .inr ⟨path, rfl, cycle⟩

/-- What an order of containment is: the structs, each behind all that it contains. -/
structure ContainmentOrder (c : Catalog) (order : List String) : Prop where
  finished : c.Finished order.reverse
  members : ∀ name, c.Registered name → name ∈ order

theorem containmentOrder_walks (c : Catalog) :
    (∃ order, c.containmentOrder = .ok order ∧ c.ContainmentOrder order) ∨
      ∃ path, c.containmentOrder = .error (.cyclicStruct path) ∧ c.Cycle path := by
  have walks : c.Walks [] [] (c.structs.map StructDef.name) (c.structs.foldlM
      (fun done d => c.visit (c.structs.length + 1) [] done d.name) []) := by
    rw [← List.foldlM_map]
    refine walks_foldlM (fun name _ done finished closed => ?_) .nil (by simp)
    exact visit_walks ⟨List.nodup_nil, by simp⟩ (.singleton name) (by simp) finished closed
  unfold containmentOrder
  rcases walks with ⟨done, run, walked⟩ | ⟨path, run, cycle⟩
  · rw [run]
    refine .inl ⟨done.reverse, rfl, by simpa using walked.finished, ?_⟩
    rintro _ ⟨d, mem, rfl⟩
    exact List.mem_reverse.mpr (walked.covered d.name (List.mem_map_of_mem mem) ⟨d, mem, rfl⟩)
  · rw [run]
    exact .inr ⟨path, rfl, cycle⟩

theorem missing?_eq_none_iff {ty : TypeRef} :
    c.missing? ty = none ↔ ∀ name, ty.Mentions name → c.Registered name := by
  simp [missing?, TypeRef.mem_referenced_iff, hasStruct_iff]

theorem check_eq_ok {ty : TypeRef} :
    c.check ty = .ok () ↔ ∀ name, ty.Mentions name → c.Registered name := by
  rw [← missing?_eq_none_iff, check]
  split
  · rename_i missing
    simp [missing]
  · rename_i known
    simp [known]

theorem checkFields_eq_ok {owner : String} {fields : List Field} :
    c.checkFields owner fields = .ok () ↔
      ∀ f ∈ fields, ∀ name, f.ty.Mentions name → c.Registered name := by
  induction fields with
  | nil => simp [checkFields]
  | cons f fs ih =>
    rw [List.forall_mem_cons, ← ih, ← missing?_eq_none_iff]
    simp only [checkFields]
    split
    · rename_i missing
      simp [missing]
    · rename_i known
      simp [known]

theorem checkStructs_eq_ok {structs : List StructDef} :
    c.checkStructs structs = .ok () ↔
      ∀ d ∈ structs, ∀ f ∈ d.fields, ∀ name, f.ty.Mentions name → c.Registered name := by
  induction structs with
  | nil => simp [checkStructs]
  | cons d ds ih =>
    rw [List.forall_mem_cons, ← ih, ← checkFields_eq_ok]
    exact check_bind_eq_ok

theorem checkFields_error {owner : String} {fields : List Field} {e : CatalogError}
    (run : c.checkFields owner fields = .error e) :
    ∃ field name, e = .unknownFieldType owner field name := by
  induction fields with
  | nil => contradiction
  | cons f fs ih =>
    unfold checkFields at run
    split at run
    · exact ⟨_, _, (Except.error.inj run).symm⟩
    · exact ih run

theorem checkStructs_error {structs : List StructDef} {e : CatalogError}
    (run : c.checkStructs structs = .error e) :
    ∃ owner field name, e = .unknownFieldType owner field name := by
  induction structs with
  | nil => contradiction
  | cons d ds ih =>
    unfold checkStructs at run
    cases first : c.checkFields d.name d.fields with
    | error cause =>
      rw [first] at run
      obtain rfl := Except.error.inj run
      exact ⟨_, checkFields_error first⟩
    | ok _ =>
      rw [first] at run
      exact ih run

theorem validate_eq_ok {order : List String} :
    c.validate = .ok order ↔ c.checkStructs c.structs = .ok () ∧ c.containmentOrder = .ok order :=
  check_bind_eq_ok

theorem cycle_transGen {path : List String} (cycle : c.Cycle path) :
    ∃ name, Relation.TransGen c.Contains name name := by
  obtain ⟨some_step, closed, _, contains⟩ := cycle
  match path with
  | [] => simp at some_step
  | [_] => simp at some_step
  | first :: second :: rest =>
    obtain ⟨step, onward⟩ := List.isChain_cons_cons.mp contains
    have last : (second :: rest).getLast (List.cons_ne_nil _ _) = first := by
      have eq : some first = (first :: second :: rest).getLast? := closed
      rw [List.getLast?_cons_cons, List.getLast?_eq_some_getLast (List.cons_ne_nil _ _)] at eq
      exact (Option.some.inj eq).symm
    exact ⟨first, .head' step (List.relationReflTransGen_of_exists_isChain_cons rest onward last)⟩

/-- A catalog passes exactly when its members mention registered structs only and no struct contains
itself. A cycle that is told is one. -/
structure ValidLaw (c : Catalog) : Prop where
  valid_iff : (∃ order, c.validate = .ok order) ↔
    (∀ d ∈ c.structs, ∀ f ∈ d.fields, ∀ name, f.ty.Mentions name → c.Registered name) ∧
      ∀ name, ¬ Relation.TransGen c.Contains name name
  cycle : ∀ path, c.validate = .error (.cyclicStruct path) → c.Cycle path

theorem valid_iff_acyclic (c : Catalog) : ValidLaw c := by
  have walks := c.containmentOrder_walks
  constructor
  · constructor
    · rintro ⟨order, run⟩
      obtain ⟨members, walked⟩ := validate_eq_ok.mp run
      refine ⟨checkStructs_eq_ok.mp members, fun name cycle => ?_⟩
      rcases walks with ⟨order', run', contained⟩ | ⟨path, run', _⟩
      · obtain ⟨_, step, _⟩ := Relation.TransGen.head'_iff.mp cycle
        have mem := List.mem_reverse.mpr (contained.members name (registered_of_contains step))
        exact finished_acyclic contained.finished name mem cycle
      · rw [run'] at walked
        contradiction
    · rintro ⟨members, acyclic⟩
      rcases walks with ⟨order, run, _⟩ | ⟨path, _, cycle⟩
      · exact ⟨order, validate_eq_ok.mpr ⟨checkStructs_eq_ok.mpr members, run⟩⟩
      · obtain ⟨name, back⟩ := cycle_transGen cycle
        exact absurd back (acyclic name)
  · intro path run
    cases members : c.checkStructs c.structs with
    | error e =>
      obtain ⟨owner, field, name, rfl⟩ := checkStructs_error members
      simp [validate, members, bind, Except.bind] at run
    | ok _ =>
      have run' : c.containmentOrder = .error (.cyclicStruct path) := by
        simpa [validate, members, bind, Except.bind] using run
      rcases walks with ⟨order, walked, _⟩ | ⟨path', walked, cycle⟩
      · rw [walked] at run'
        contradiction
      · rw [walked] at run'
        cases run'
        exact cycle

/-- `struct Book { Level[2] levels; }`, `struct Level { uint8 side; Order first; }` and orders with one
member of this type. -/
def bookCatalog (ty : TypeRef) : Catalog :=
  ⟨[⟨"Book", [⟨"levels", .fixedArray (.struct "Level") 2⟩]⟩,
    ⟨"Level", [⟨"side", .elementary (.uint 8)⟩, ⟨"first", .struct "Order"⟩]⟩,
    ⟨"Order", [⟨"level", ty⟩]⟩], []⟩

/-- A level in each order closes a cycle, which leaves the book out; a list of levels does not. -/
theorem book_cycle_told :
    (bookCatalog (.struct "Level")).validate = .error (.cyclicStruct ["Level", "Order", "Level"]) ∧
      (bookCatalog (.struct "Level")).Cycle ["Level", "Order", "Level"] ∧
      (bookCatalog (.dynamicArray (.struct "Level"))).validate = .ok ["Order", "Level", "Book"] ∧
      ∀ name, ¬ Relation.TransGen (bookCatalog (.dynamicArray (.struct "Level"))).Contains name name := by
  have cyclic := valid_iff_acyclic (bookCatalog (.struct "Level"))
  have acyclic := valid_iff_acyclic (bookCatalog (.dynamicArray (.struct "Level")))
  have valid : (bookCatalog (.dynamicArray (.struct "Level"))).validate =
      .ok ["Order", "Level", "Book"] := by rfl
  exact ⟨by rfl, cyclic.cycle _ (by rfl), valid, (acyclic.valid_iff.mp ⟨_, valid⟩).2⟩

end Catalog

end ContractRegistry
