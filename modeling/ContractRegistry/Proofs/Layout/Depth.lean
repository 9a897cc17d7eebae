import ContractRegistry.Proofs.Layout.Interchange

/-!
How deep structs are followed.

Structs are followed in three ways: to find cycles, to write signatures and to place members. The first two
keep the structs that are open, which are all different and registered, so there are no more of them than
structs. In a valid catalog no struct contains itself, so the members of a struct are placed after fewer
steps than there are structs. The bounds that are put on these recursions are never what ends them.
-/
namespace ContractRegistry.Catalog

variable {c : Catalog}

theorem Open.nil : c.Open [] :=
  ⟨.nil, by simp⟩

theorem Open.cons {opened : List String} {name : String} {d : StructDef} (isOpen : c.Open opened)
    (found : c.struct? name = some d) (fresh : name ∉ opened) : c.Open (name :: opened) :=
  ⟨List.nodup_cons.mpr ⟨fresh, isOpen.distinct⟩,
    List.forall_mem_cons.mpr ⟨registered_of_struct? found, isOpen.registered⟩⟩

theorem Open.full {opened : List String} (isOpen : c.Open opened)
    (all : c.structs.length ≤ opened.length) {name : String} {d : StructDef}
    (found : c.struct? name = some d) : name ∈ opened := by
  by_contra fresh
  have more := open_length_le (isOpen.cons found fresh)
  rw [List.length_cons] at more
  omega

theorem foldlM_congr {α β ε : Type} {f g : β → α → Except ε β} {names : List α}
    (same : ∀ name ∈ names, ∀ done, f done name = g done name) (done : β) :
    names.foldlM f done = names.foldlM g done := by
  induction names generalizing done with
  | nil => rfl
  | cons name names ih =>
    rw [List.foldlM_cons, List.foldlM_cons, same name List.mem_cons_self]
    exact congrArg (_ >>= ·) (funext fun next => ih (fun other mem => same other
      (List.mem_cons_of_mem _ mem)) next)

theorem visit_enough {depth depth' : Nat} {opened : List String} (isOpen : c.Open opened)
    (enough : c.structs.length < depth + opened.length)
    (enough' : c.structs.length < depth' + opened.length) (done : List String) (name : String) :
    c.visit depth opened done name = c.visit depth' opened done name := by
  have most := open_length_le isOpen
  induction depth generalizing depth' opened done name with
  | zero => omega
  | succ depth ih =>
    obtain ⟨depth', rfl⟩ : ∃ fewer, depth' = fewer + 1 := ⟨depth' - 1, by omega⟩
    simp only [visit]
    split
    · rfl
    split
    · rfl
    rename_i unopened
    split
    · rfl
    · rename_i d found
      have inner := isOpen.cons found unopened
      have children : ∀ child ∈ d.contained, ∀ done,
          c.visit depth (name :: opened) done child = c.visit depth' (name :: opened) done child :=
        fun child _ done => ih inner (by rw [List.length_cons]; omega) (by rw [List.length_cons]; omega)
          done child (open_length_le inner)
      rw [foldlM_congr children]

theorem structText_full {opened : List String} (isOpen : c.Open opened)
    (all : c.structs.length ≤ opened.length) (depth : Nat) (name : String) :
    c.structText depth opened name = structByName name := by
  cases depth with
  | zero => rfl
  | succ depth =>
    rw [structText]
    split
    · rename_i d found
      rw [if_pos (isOpen.full all found)]
    · rfl

theorem structText_enough {depth depth' : Nat} {opened : List String} (isOpen : c.Open opened)
    (enough : c.structs.length ≤ depth + opened.length)
    (enough' : c.structs.length ≤ depth' + opened.length) (name : String) :
    c.structText depth opened name = c.structText depth' opened name := by
  induction depth generalizing depth' opened name with
  | zero => rw [structText_full isOpen (by omega), structText_full isOpen (by omega)]
  | succ depth ih =>
    cases depth' with
    | zero => rw [structText_full isOpen (by omega), structText_full isOpen (by omega)]
    | succ depth' =>
      rw [structText, structText]
      split
      · rename_i d found
        split
        · rfl
        · rename_i unopened
          have inner := isOpen.cons found unopened
          have members : c.structText depth (name :: opened) = c.structText depth' (name :: opened) :=
            funext fun other => ih inner (by rw [List.length_cons]; omega)
              (by rw [List.length_cons]; omega) other
          rw [members]
      · rfl

theorem placeFields_congr {slots : String → LayoutResult Nat}
    {inside inside' : String → Nat → String → LayoutResult Scope} {fields : List Field}
    (same : ∀ f ∈ fields, ∀ name, f.ty = .struct name → inside name = inside' name) (base : Nat)
    (pathOf : String → String) (cursor : Cursor) :
    c.placeFields slots inside base pathOf cursor fields =
      c.placeFields slots inside' base pathOf cursor fields := by
  induction fields generalizing cursor with
  | nil => rfl
  | cons f fs ih =>
    have others := ih fun g mem => same g (List.mem_cons_of_mem _ mem)
    simp only [placeFields, others]
    cases named : f.ty with
    | struct name => simp only [same f List.mem_cons_self name named]
    | _ => rfl

theorem contained_finished {last : String} {d : StructDef} {done : List String}
    (members : ∀ d ∈ c.structs, ∀ f ∈ d.fields, ∀ name, f.ty.Mentions name → c.Registered name)
    (found : c.struct? last = some d)
    (inside : ∀ child ∈ d.contained, c.hasStruct child = true → child ∈ done)
    {f : Field} (member : f ∈ d.fields) {child : String} (named : f.ty = .struct child) :
    child ∈ done := by
  have stores : f.ty.Stores child := named ▸ .struct child
  have registered := members d (struct?_mem found) f member child (TypeRef.mentions_of_stores stores)
  have listed : child ∈ d.contained :=
    List.mem_flatMap.mpr ⟨f, member, TypeRef.mem_contained_iff.mpr stores⟩
  exact inside child listed (hasStruct_iff.mpr registered)

/-- The members of a struct are placed before a bound on the depth is reached. -/
def EndsWithin (c : Catalog) : Nat → String → Prop
  | 0, _ => False
  | depth + 1, name => ∀ d, c.struct? name = some d →
    ∀ f ∈ d.fields, ∀ child, f.ty = .struct child → c.EndsWithin depth child

theorem endsWithin_of_finished {done : List String} (finished : c.Finished done)
    (members : ∀ d ∈ c.structs, ∀ f ∈ d.fields, ∀ name, f.ty.Mentions name → c.Registered name) :
    ∀ name ∈ done, ∀ depth, done.length ≤ depth → c.EndsWithin depth name := by
  induction finished with
  | nil => exact fun name mem => absurd mem List.not_mem_nil
  | @cons last d done found fresh inside before ih =>
    intro name mem depth enough
    rw [List.length_cons] at enough
    rcases List.mem_cons.mp mem with rfl | earlier
    · obtain ⟨depth, rfl⟩ : ∃ fewer, depth = fewer + 1 := ⟨depth - 1, by omega⟩
      intro d' found' f member child named
      obtain rfl := Option.some.inj (found.symm.trans found')
      have earlier := contained_finished members found inside member named
      exact ih child earlier depth (by omega)
    · exact ih name earlier depth (by omega)

theorem placeStruct_enough {slots : String → LayoutResult Nat} {depth depth' : Nat} {name : String}
    (ends : c.EndsWithin depth name) (ends' : c.EndsWithin depth' name) :
    c.placeStruct slots depth name = c.placeStruct slots depth' name := by
  induction depth generalizing depth' name with
  | zero => exact ends.elim
  | succ depth ih =>
    cases depth' with
    | zero => exact ends'.elim
    | succ depth' =>
      funext base path
      simp only [placeStruct]
      cases found : c.struct? name with
      | none => rfl
      | some d =>
        have contained : ∀ f ∈ d.fields, ∀ child, f.ty = .struct child →
            c.placeStruct slots depth child = c.placeStruct slots depth' child :=
          fun f member child named => ih (ends d found f member child named)
            (ends' d found f member child named)
        simp only [placeFields_congr contained]

theorem finished_length_le {done : List String} (finished : c.Finished done) :
    done.length ≤ c.structs.length := by
  refine open_length_le ?_
  induction finished with
  | nil => exact .nil
  | cons found fresh _ _ ih => exact ih.cons found fresh

theorem sizes_of_valid {order : List String} (valid : c.validate = .ok order) :
    c.sizes = .ok (c.measureAll [] order) := by
  rw [sizes, valid]
  rfl

theorem endsWithin_of_valid {order : List String} (valid : c.validate = .ok order) {name : String}
    (registered : c.Registered name) {depth : Nat} (enough : c.structs.length ≤ depth) :
    c.EndsWithin depth name := by
  obtain ⟨members, order', ordered, -⟩ := sizes_eq_ok (sizes_of_valid valid)
  have few := finished_length_le ordered.finished
  have listed := List.mem_reverse.mpr (ordered.members name registered)
  exact endsWithin_of_finished ordered.finished members name listed depth (by omega)

/-- Structs do not contain themselves, and following them ends before the bounds on its depth. The size of
a struct is then that of its members, by the sizes of the structs among them. -/
structure Grounded (c : Catalog) : Prop where
  wellFounded : WellFounded fun inner outer => c.Contains outer inner
  visited : ∀ depth, c.structs.length < depth → ∀ done name,
    c.visit depth [] done name = c.visit (c.structs.length + 1) [] done name
  written : ∀ depth, c.structs.length ≤ depth → ∀ ty : TypeRef,
    ty.text (c.structText depth []) = c.signature ty
  measured : ∃ sizes, c.sizes = .ok sizes ∧
    ∀ name d, c.struct? name = some d → sizes.slots name = c.measure sizes.slots d
  placed : ∀ depth, c.structs.length ≤ depth → ∀ name, c.Registered name → ∀ slots,
    c.placeStruct slots depth name = c.placeStruct slots c.structs.length name

theorem wellFounded_of_finished {done : List String} (finished : c.Finished done)
    (all : ∀ name, c.Registered name → name ∈ done) :
    WellFounded fun inner outer => c.Contains outer inner := by
  have accessible : ∀ name ∈ done, Acc (fun inner outer => c.Contains outer inner) name := by
    clear all
    induction finished with
    | nil => simp
    | @cons last d done found _ inside before ih =>
      refine List.forall_mem_cons.mpr ⟨.intro _ fun child stored => ?_, ih⟩
      obtain ⟨e, known, contained⟩ := contains_iff.mp stored
      obtain rfl := Option.some.inj (found.symm.trans known)
      by_cases registered : c.hasStruct child = true
      · exact ih child (inside child contained registered)
      · -- A name without a struct contains nothing.
        refine .intro _ fun other within => ?_
        exact absurd (hasStruct_iff.mpr (registered_of_contains within)) registered
  refine ⟨fun name => ?_⟩
  by_cases registered : c.Registered name
  · exact accessible name (all name registered)
  · exact .intro _ fun other within => absurd (registered_of_contains within) registered

theorem grounded_of_valid {order : List String} (valid : c.validate = .ok order) : c.Grounded := by
  have run := sizes_of_valid valid
  obtain ⟨members, order', ordered, -⟩ := sizes_eq_ok run
  have all : ∀ name, c.Registered name → name ∈ order'.reverse :=
    fun name registered => List.mem_reverse.mpr (ordered.members name registered)
  constructor
  · exact wellFounded_of_finished ordered.finished all
  · intro depth enough done name
    exact visit_enough .nil (by simpa using enough) (by simp) done name
  · intro depth enough ty
    have same : c.structText depth [] = c.structText c.structs.length [] :=
      funext (structText_enough .nil (by simpa using enough) (by simp))
    rw [same, signature]
  · exact ⟨_, run, fun name d found => slots_eq_measure run found⟩
  · intro depth enough name registered slots
    exact placeStruct_enough (endsWithin_of_valid valid registered enough)
      (endsWithin_of_valid valid registered (Nat.le_refl _))

end ContractRegistry.Catalog
