import ContractRegistry.Proofs.Source.Sized

/-!
Structs that are declared again.

The type of a member is found among built-in types, contracts, enums and value types, which are all
registered before the first struct, and its lengths by constants, which do not change. So the members of a
struct are the same whenever its turn comes. A struct that is declared again with the same members is left
out, and the first one that has other members than the struct of its name refuses the source.
-/
namespace ContractRegistry

namespace Catalog

variable {c c' : Catalog}

theorem fieldType_of_aliases (same : c.aliases = c'.aliases) : c.fieldType = c'.fieldType := by
  funext name
  simp only [fieldType, elementary?, alias?, same]

theorem struct?_append (c : Catalog) (d : StructDef) (name : String) :
    Catalog.struct? { c with structs := c.structs ++ [d] } name =
      (c.struct? name).or (if d.name = name then some d else none) := by
  simp only [struct?, List.find?_append, List.find?_singleton, decide_eq_true_eq]

/-- Names are registered that stand for built-in types, and all else stays as it is. -/
structure Named (names : List String) (c c' : Catalog) : Prop where
  structs : c'.structs = c.structs
  others : ∀ name, name ∉ names → c'.alias? name = c.alias? name

theorem Named.nil (c : Catalog) : Named [] c c :=
  ⟨rfl, fun _ _ => rfl⟩

theorem Named.append {c'' : Catalog} {names names' : List String} (first : Named names c c')
    (second : Named names' c' c'') : Named (names ++ names') c c'' := by
  refine ⟨second.structs.trans first.structs, fun name new => ?_⟩
  simp only [List.mem_append, not_or] at new
  rw [second.others name new.2, first.others name new.1]

theorem named_of_registerAlias {name : String} {kind : Elementary}
    (run : c.registerAlias name kind = .ok c') : Named [name] c c' := by
  obtain ⟨free, rfl⟩ := registerAlias_eq_ok.mp run
  refine ⟨rfl, fun other apart => ?_⟩
  simp only [List.mem_singleton] at apart
  simp [alias?, List.lookup_append, List.lookup_cons, beq_false_of_ne apart]

end Catalog

namespace Source

open Catalog

section

variable {c c' : Catalog} {constants : Constants}

theorem TypeExpr.resolve_of_aliases (same : c.aliases = c'.aliases) (ty : TypeExpr) :
    ty.resolve c constants = ty.resolve c' constants := by
  induction ty with
  | named name line => simp only [resolve, fieldType_of_aliases same]
  | mapping key value ihk ihv => simp only [resolve, ihk, ihv]
  | array element length line ih =>
    cases length with
    | none => simp only [resolve, ih]
    | some ts => simp only [resolve, ih]
  | function external => rfl

end

namespace SourceUnit

theorem resolveFields_of_aliases {c c' : Catalog} (same : c.aliases = c'.aliases) (constants : Constants)
    (fields : List (String × TypeExpr)) :
    resolveFields c constants fields = resolveFields c' constants fields := by
  induction fields with
  | nil => rfl
  | cons f fs ih => simp only [resolveFields, TypeExpr.resolve_of_aliases same, ih]

theorem named_of_registerContracts {contracts : List ContractItem} {c c' : Catalog}
    (run : registerContracts c contracts = .ok c') : Named (contracts.map (·.name)) c c' := by
  induction contracts generalizing c with
  | nil =>
    cases run
    exact Named.nil _
  | cons d ds ih =>
    obtain ⟨next, first, run⟩ := bind_eq_ok.mp run
    exact (named_of_registerAlias first).append (ih run)

theorem named_of_registerEnums {enums : List EnumItem} {c c' : Catalog}
    (run : registerEnums c enums = .ok c') : Named (enums.map (·.name)) c c' := by
  induction enums generalizing c with
  | nil =>
    cases run
    exact Named.nil _
  | cons e es ih =>
    obtain ⟨next, first, run⟩ := bind_eq_ok.mp run
    unfold Catalog.registerEnum at first
    split at first
    · contradiction
    · exact (named_of_registerAlias (Failure.tell_eq_ok.mp first)).append (ih run)

theorem named_of_registerValueTypes {valueTypes : List ValueTypeItem} {c c' : Catalog}
    (run : registerValueTypes c valueTypes = .ok c') : Named (valueTypes.map (·.name)) c c' := by
  induction valueTypes generalizing c with
  | nil =>
    cases run
    exact Named.nil _
  | cons v vs ih =>
    unfold registerValueTypes at run
    split at run
    · contradiction
    · obtain ⟨next, first, run⟩ := bind_eq_ok.mp run
      exact (named_of_registerAlias first).append (ih run)

def otherNames (u : SourceUnit) : List String :=
  u.contracts.map (·.name) ++ u.enums.map (·.name) ++ u.valueTypes.map (·.name)

def typeNames (u : SourceUnit) : Except (Failure SourceError) Catalog := do
  let catalog ← Failure.tell (orRefuse (registerContracts .empty u.contracts))
  let catalog ← (registerEnums catalog u.enums).mapError (.map .catalog)
  Failure.tell (orRefuse (registerValueTypes catalog u.valueTypes))

theorem catalog_eq (u : SourceUnit) :
    u.catalog = u.typeNames >>= fun start =>
      Failure.tell (registerStructs u.constantTable start u.structs) := by
  simp only [catalog, typeNames, bind_assoc]

theorem named_of_typeNames {u : SourceUnit} {start : Catalog} (run : u.typeNames = .ok start) :
    Named u.otherNames .empty start := by
  unfold typeNames at run
  simp only [bind_eq_ok, Failure.tell_eq_ok, Failure.mapError_eq_ok, orRefuse_eq_ok] at run
  obtain ⟨c, contracts, c', enums, valueTypes⟩ := run
  have first := named_of_registerContracts contracts
  have second := named_of_registerEnums enums
  exact (first.append second).append (named_of_registerValueTypes valueTypes)

/-- The members of a struct, with the types that are known before any struct. -/
def membersOf (u : SourceUnit) (start : Catalog) (s : StructItem) : Parsed (List Field) :=
  resolveFields start u.constantTable s.fields

structure Conflict (u : SourceUnit) (start : Catalog) (s t : StructItem) : Prop where
  named : s.name = t.name
  differ : ∃ fields others, u.membersOf start s = .ok fields ∧ u.membersOf start t = .ok others ∧
    fields ≠ others

/-- A catalog has the structs of items, each with its members, and no other ones. -/
structure Holds (u : SourceUnit) (start : Catalog) (items : List StructItem) (c : Catalog) : Prop where
  aliases : c.aliases = start.aliases
  members : ∀ s ∈ items, ∃ fields, u.membersOf start s = .ok fields ∧
    c.struct? s.name = some ⟨s.name, fields⟩
  others : ∀ name, (∀ s ∈ items, s.name ≠ name) → c.struct? name = none

section

variable {u : SourceUnit} {start c : Catalog} {items : List StructItem} {s t : StructItem}
  {fields : List Field}

theorem holds_nil (run : u.typeNames = .ok start) : u.Holds start [] start := by
  refine ⟨rfl, by simp, fun name _ => ?_⟩
  rw [struct?, (named_of_typeNames run).structs]
  rfl

theorem Holds.registerStructs_cons (holds : u.Holds start items c) (s : StructItem)
    (ss : List StructItem) :
    registerStructs u.constantTable c (s :: ss) = (do
      let fields ← u.membersOf start s
      if c.struct? s.name = some ⟨s.name, fields⟩ then registerStructs u.constantTable c ss
      else
        let catalog ← orRefuse (c.registerStruct ⟨s.name, fields⟩)
        registerStructs u.constantTable catalog ss) := by
  rw [registerStructs, resolveFields_of_aliases holds.aliases, membersOf]

theorem Holds.again (holds : u.Holds start items c) (earlier : t ∈ items) (named : t.name = s.name)
    (same : u.membersOf start t = u.membersOf start s) (ss : List StructItem) :
    registerStructs u.constantTable c (s :: ss) = registerStructs u.constantTable c ss := by
  obtain ⟨fields, resolved, found⟩ := holds.members t earlier
  rw [named] at found
  rw [holds.registerStructs_cons, ← same, bind_of_eq_ok resolved, if_pos found]

theorem Holds.refused (holds : u.Holds start items c) (earlier : t ∈ items)
    (conflict : u.Conflict start t s) (ss : List StructItem) :
    registerStructs u.constantTable c (s :: ss) = .error (.catalog (.duplicateStruct s.name)) := by
  obtain ⟨others, fields, resolved', resolved, differ⟩ := conflict.differ
  obtain ⟨_, resolved'', found⟩ := holds.members t earlier
  obtain rfl := Except.ok.inj (resolved'.symm.trans resolved'')
  rw [conflict.named] at found
  have apart : c.struct? s.name ≠ some ⟨s.name, fields⟩ := by
    rw [found]
    simpa using differ
  have known : c.hasStruct s.name = true := by rw [hasStruct, found, Option.isSome_some]
  rw [holds.registerStructs_cons, bind_of_eq_ok resolved, if_neg apart, registerStruct, if_pos known]
  rfl

theorem Holds.new (holds : u.Holds start items c) (new : ∀ t ∈ items, t.name ≠ s.name)
    (resolved : u.membersOf start s = .ok fields) (ss : List StructItem) :
    registerStructs u.constantTable c (s :: ss) =
      if (start.alias? s.name).isSome then .error (.catalog (.duplicateType s.name))
      else registerStructs u.constantTable { c with structs := c.structs ++ [⟨s.name, fields⟩] } ss := by
  have unknown := holds.others s.name new
  have apart : c.struct? s.name ≠ some ⟨s.name, fields⟩ := by simp [unknown]
  have free : ¬ c.hasStruct s.name = true := by simp [hasStruct, unknown]
  rw [holds.registerStructs_cons, bind_of_eq_ok resolved, if_neg apart, registerStruct, if_neg free]
  simp only [alias?, holds.aliases]
  split <;> rfl

theorem Holds.cons (holds : u.Holds start items c) (new : ∀ t ∈ items, t.name ≠ s.name)
    (resolved : u.membersOf start s = .ok fields) :
    u.Holds start (s :: items) { c with structs := c.structs ++ [⟨s.name, fields⟩] } := by
  refine ⟨holds.aliases, List.forall_mem_cons.mpr ⟨⟨fields, resolved, ?_⟩, fun t earlier => ?_⟩, ?_⟩
  · rw [struct?_append, holds.others s.name new, Option.none_or, if_pos rfl]
  · obtain ⟨others, resolved', found⟩ := holds.members t earlier
    exact ⟨others, resolved', by rw [struct?_append, found, Option.some_or]⟩
  · intro name apart
    obtain ⟨here, before⟩ := List.forall_mem_cons.mp apart
    rw [struct?_append, holds.others name before, if_neg here, Option.none_or]

theorem Holds.repeated (holds : u.Holds start items c) (earlier : t ∈ items) (named : t.name = s.name)
    (same : u.membersOf start t = u.membersOf start s) : u.Holds start (s :: items) c := by
  refine ⟨holds.aliases, List.forall_mem_cons.mpr ⟨?_, holds.members⟩, fun name apart => ?_⟩
  · rw [← same, ← named]
    exact holds.members t earlier
  · exact holds.others name (List.forall_mem_cons.mp apart).2

theorem Holds.taken (holds : u.Holds start items c) (resolved : u.membersOf start s = .ok fields)
    (free : start.alias? s.name = none) :
    (∃ t ∈ items, u.Conflict start t s) ∨ ∃ next, u.Holds start (s :: items) next ∧
      ∀ ss, registerStructs u.constantTable c (s :: ss) = registerStructs u.constantTable next ss := by
  by_cases there : ∃ t ∈ items, t.name = s.name
  · obtain ⟨t, earlier, named⟩ := there
    obtain ⟨others, resolved', -⟩ := holds.members t earlier
    by_cases same : others = fields
    · have same : u.membersOf start t = u.membersOf start s := by rw [resolved', resolved, same]
      exact .inr ⟨c, holds.repeated earlier named same, holds.again earlier named same⟩
    · exact .inl ⟨t, earlier, named, others, fields, resolved', resolved, same⟩
  · have new : ∀ t ∈ items, t.name ≠ s.name := fun t earlier named => there ⟨t, earlier, named⟩
    refine .inr ⟨_, holds.cons new resolved, fun ss => ?_⟩
    rw [holds.new new resolved, free]
    rfl

theorem Holds.registerStructs_conflict (holds : u.Holds start items c) {before : List StructItem}
    (free : ∀ t ∈ before, start.alias? t.name = none)
    (resolved : ∀ t ∈ before, ∃ fields, u.membersOf start t = .ok fields)
    (conflict : ∃ t ∈ items ++ before, u.Conflict start t s) (after : List StructItem) :
    ∃ x ∈ items ++ before, ∃ y ∈ before ++ [s], u.Conflict start x y ∧
      registerStructs u.constantTable c (before ++ s :: after) =
        .error (.catalog (.duplicateStruct y.name)) := by
  induction before generalizing items c with
  | nil =>
    obtain ⟨t, earlier, conflict⟩ := conflict
    rw [List.append_nil] at earlier ⊢
    exact ⟨t, earlier, s, List.mem_singleton_self s, conflict, holds.refused earlier conflict after⟩
  | cons y ys ih =>
    obtain ⟨here, others⟩ := List.forall_mem_cons.mp free
    obtain ⟨⟨fields, known⟩, more⟩ := List.forall_mem_cons.mp resolved
    rcases holds.taken known here with ⟨t, earlier, found⟩ | ⟨next, holds', onward⟩
    · exact ⟨t, List.mem_append_left _ earlier, y, List.mem_cons_self, found,
        holds.refused earlier found _⟩
    · have moved (x : StructItem) : x ∈ items ++ y :: ys ↔ x ∈ (y :: items) ++ ys :=
        List.perm_middle.mem_iff
      simp only [moved] at conflict ⊢
      obtain ⟨x, first, z, second, found, refused⟩ := ih holds' others more conflict
      exact ⟨x, first, z, List.mem_cons_of_mem y second, found, (onward _).trans refused⟩

end

theorem registerStructs_aliases {constants : Constants} {structs : List StructItem} {c c' : Catalog}
    (run : registerStructs constants c structs = .ok c') : c'.aliases = c.aliases := by
  induction structs generalizing c with
  | nil =>
    cases run
    rfl
  | cons s ss ih =>
    obtain ⟨fields, _, run⟩ := bind_eq_ok.mp run
    split at run
    · exact ih run
    · obtain ⟨next, registered, run⟩ := bind_eq_ok.mp run
      have registered := orRefuse_eq_ok.mp registered
      unfold registerStruct at registered
      split at registered
      · contradiction
      split at registered
      · contradiction
      cases registered
      exact (ih run :)

def firsts : List String → List StructItem → List StructItem
  | _, [] => []
  | names, s :: ss => if s.name ∈ names then firsts names ss else s :: firsts (s.name :: names) ss

theorem firsts_sublist (names : List String) (structs : List StructItem) :
    (firsts names structs).Sublist structs := by
  induction structs generalizing names with
  | nil => exact .slnil
  | cons s ss ih =>
    rw [firsts]
    split
    · exact (ih names).cons s
    · exact (ih (s.name :: names)).cons_cons s

theorem firsts_distinct (names : List String) (structs : List StructItem) :
    ((firsts names structs).map (·.name)).Nodup ∧ ∀ s ∈ firsts names structs, s.name ∉ names := by
  induction structs generalizing names with
  | nil => simp [firsts]
  | cons s ss ih =>
    rw [firsts]
    split
    · exact ih names
    · rename_i new
      obtain ⟨distinct, later⟩ := ih (s.name :: names)
      constructor
      · rw [List.map_cons, List.nodup_cons]
        refine ⟨fun again => ?_, distinct⟩
        obtain ⟨t, mem, same⟩ := List.mem_map.mp again
        exact later t mem (same ▸ List.mem_cons_self)
      · refine List.forall_mem_cons.mpr ⟨new, fun t mem known => ?_⟩
        exact later t mem (List.mem_cons_of_mem _ known)

theorem find?_firsts {names : List String} {name : String} (new : name ∉ names)
    (structs : List StructItem) :
    (firsts names structs).find? (·.name = name) = structs.find? (·.name = name) := by
  induction structs generalizing names with
  | nil => rfl
  | cons s ss ih =>
    rw [firsts]
    by_cases here : s.name = name
    · rw [if_neg (here ▸ new)]
      simp [here]
    · simp only [List.find?_cons, here, decide_false]
      split
      · exact ih new
      · simp only [List.find?_cons, here, decide_false]
        exact ih (List.not_mem_cons_of_ne_of_not_mem (Ne.symm here) new)

/-- The source with the first struct of each name only. -/
def withoutRepeats (u : SourceUnit) : SourceUnit :=
  { u with structs := firsts [] u.structs }

section

variable {u : SourceUnit} {start c : Catalog}

def Agree (u : SourceUnit) (start : Catalog) (items : List StructItem) : Prop :=
  ∀ s ∈ items, ∀ t ∈ items, s.name = t.name → u.membersOf start s = u.membersOf start t

theorem Agree.sublist {items others : List StructItem} (agree : u.Agree start items)
    (within : others.Sublist items) : u.Agree start others :=
  fun s first t second => agree s (within.mem first) t (within.mem second)

theorem Holds.registerStructs_firsts {items structs : List StructItem} (holds : u.Holds start items c)
    (agree : u.Agree start (items ++ structs)) :
    registerStructs u.constantTable c structs =
      registerStructs u.constantTable c (firsts (items.map (·.name)) structs) := by
  induction structs generalizing items c with
  | nil => rfl
  | cons s ss ih =>
    rw [firsts]
    split
    · rename_i again
      obtain ⟨t, earlier, named⟩ := List.mem_map.mp again
      have same := agree t (List.mem_append_left _ earlier) s
        (List.mem_append_right _ List.mem_cons_self) named
      rw [holds.again earlier named same]
      exact ih holds (agree.sublist ((List.sublist_cons_self s ss).append_left items))
    · rename_i first
      have new : ∀ t ∈ items, t.name ≠ s.name :=
        fun t earlier named => first (List.mem_map.mpr ⟨t, earlier, named⟩)
      cases resolved : u.membersOf start s with
      | error e => rw [holds.registerStructs_cons, holds.registerStructs_cons, resolved]; rfl
      | ok fields =>
        rw [holds.new new resolved, holds.new new resolved]
        have agree' : u.Agree start ((s :: items) ++ ss) :=
          fun x mem y mem' => agree x (List.perm_middle.mem_iff.mpr mem) y
            (List.perm_middle.mem_iff.mpr mem')
        rw [ih (holds.cons new resolved) agree']
        rfl

theorem catalog_withoutRepeats
    (agree : ∀ start, u.typeNames = .ok start → u.Agree start u.structs) :
    u.withoutRepeats.catalog = u.catalog := by
  have names : u.withoutRepeats.typeNames = u.typeNames := rfl
  rw [catalog_eq, catalog_eq, names]
  cases run : u.typeNames with
  | error e => rfl
  | ok start =>
    exact congrArg Failure.tell ((holds_nil run).registerStructs_firsts (agree start run)).symm

/-- Which contract is selected, the order of its bases and its variables depend on contracts only. -/
theorem select_withoutRepeats
    (agree : ∀ start, u.typeNames = .ok start → u.Agree start u.structs) (asked : Option String) :
    u.withoutRepeats.select asked = u.select asked := by
  have target : u.withoutRepeats.target asked = u.target asked := rfl
  rw [select, select, catalog_withoutRepeats agree, target]
  cases found : u.target asked with
  | error e => rfl
  | ok c =>
    have order : u.withoutRepeats.inheritance c = u.inheritance c :=
      inheritance_congr (u := u.withoutRepeats) (v := u) (fun _ => id) (fun _ _ _ _ => rfl)
        (target_mem found)
    have selected {α : Type} (f : ContractItem → Except (Failure SourceError) α) :
        (Except.ok c >>= f) = f c := rfl
    simp only [Failure.tell_ok, selected, order]
    rfl

theorem select_of_conflict {x : StructItem} (run : u.typeNames = .ok start)
    (refused : registerStructs u.constantTable start u.structs =
      .error (.catalog (.duplicateStruct x.name))) (asked : Option String) :
    u.select asked = .error (.told (.catalog (.duplicateStruct x.name))) := by
  rw [select, catalog_eq, bind_of_eq_ok run, refused]
  rfl

end

def StructsApart (u : SourceUnit) : Prop :=
  ∀ s ∈ u.structs, s.name ∉ u.otherNames

/-- The members of a struct do not depend on the structs before it. When structs of one name have the same
members, the source is as good as the one with the first of them only, which gives the same storage or the
same error. When two of them have different members and those before the second are known, the source is
refused for the name of such two. -/
structure RepeatLaw (u : SourceUnit) : Prop where
  timeless : ∀ start before s after c, u.typeNames = .ok start → u.structs = before ++ s :: after →
    registerStructs u.constantTable start before = .ok c →
      resolveFields c u.constantTable s.fields = u.membersOf start s
  distinct : (u.withoutRepeats.structs.map (·.name)).Nodup
  kept : u.withoutRepeats.structs.Sublist u.structs
  first : ∀ name, u.withoutRepeats.structs.find? (·.name = name) = u.structs.find? (·.name = name)
  merged : (∀ start, u.typeNames = .ok start → u.Agree start u.structs) →
    ∀ asked, u.select asked = u.withoutRepeats.select asked
  refused : ∀ start before s after, u.typeNames = .ok start → u.structs = before ++ s :: after →
    (∀ t ∈ before, ∃ fields, u.membersOf start t = .ok fields) → (∃ t ∈ before, u.Conflict start t s) →
      ∃ x ∈ u.structs, ∃ y ∈ u.structs, u.Conflict start x y ∧
        ∀ asked, u.select asked = .error (.told (.catalog (.duplicateStruct y.name)))

theorem repeated_structs_merged (u : SourceUnit) (apart : u.StructsApart) : RepeatLaw u := by
  constructor
  · intro start before s after c _ _ registered
    exact resolveFields_of_aliases (registerStructs_aliases registered) u.constantTable s.fields
  · exact (firsts_distinct [] u.structs).1
  · exact firsts_sublist [] u.structs
  · exact fun name => find?_firsts List.not_mem_nil u.structs
  · exact fun agree asked => (select_withoutRepeats agree asked).symm
  · intro start before s after run parts resolved conflict
    have free : ∀ t ∈ before, start.alias? t.name = none := fun t mem =>
      (named_of_typeNames run).others t.name (apart t (parts ▸ List.mem_append_left _ mem))
    obtain ⟨x, first, y, second, found, refused⟩ :=
      (holds_nil run).registerStructs_conflict free resolved conflict after
    have whole (z : StructItem) (mem : z ∈ before ++ [s]) : z ∈ u.structs := by
      rw [parts, List.append_cons]
      exact List.mem_append_left _ mem
    rw [← parts] at refused
    exact ⟨x, whole x (List.mem_append_left _ first), y, whole y second, found,
      select_of_conflict run refused⟩

/-- A length that is a constant of value two, or the number itself. -/
def cornersOf (length : TokenKind) : StructItem :=
  ⟨"Box", [("corners", .array (.named "Point" 1) (some [⟨length, 1⟩]) 1), ("owner", .named "Owner" 1)]⟩

def pointItem : StructItem :=
  ⟨"Point", [("x", .named "uint128" 1), ("y", .named "uint128" 1)]⟩

/-- Boxes of points, declared again behind the points with another writing of the length. -/
def boxes (again : List StructItem) : SourceUnit where
  contracts := [⟨"Owner", .interface, [], []⟩,
    ⟨"Room", .plain, [], [⟨"box", .named "Box" 3, none, .mutable, none⟩]⟩]
  structs := cornersOf (.word "N") :: pointItem :: again
  enums := []
  valueTypes := []
  constants := [⟨"N", .named "uint256" 1, none, .constant, some [⟨.number "2", 1⟩]⟩]

theorem boxes_apart (length : TokenKind) : (boxes [cornersOf length]).StructsApart := by
  simp [StructsApart, boxes, otherNames, cornersOf, pointItem]

theorem boxes_merged_or_refused :
    (boxes [cornersOf (.number "2")]).StructsApart ∧ (boxes [cornersOf (.number "3")]).StructsApart ∧
      (∀ asked, (boxes [cornersOf (.number "2")]).select asked = (boxes []).select asked) ∧
      ∀ asked, (boxes [cornersOf (.number "3")]).select asked =
        .error (.told (.catalog (.duplicateStruct "Box"))) := by
  have apart := boxes_apart (.number "2")
  have apart' := boxes_apart (.number "3")
  refine ⟨apart, apart', (repeated_structs_merged _ apart).merged fun start _ => ?_, ?_⟩
  · have members : ∀ s ∈ (boxes [cornersOf (.number "2")]).structs,
        (boxes [cornersOf (.number "2")]).membersOf start s =
          if s.name = "Box" then .ok [⟨"corners", .fixedArray (start.fieldType "Point") 2⟩,
            ⟨"owner", start.fieldType "Owner"⟩]
          else .ok [⟨"x", .elementary (.uint 128)⟩, ⟨"y", .elementary (.uint 128)⟩] :=
      List.forall_mem_cons.mpr ⟨rfl, List.forall_mem_cons.mpr ⟨rfl, List.forall_mem_singleton.mpr rfl⟩⟩
    intro s first t second named
    rw [members s first, members t second, named]
  · obtain ⟨x, first, y, second, found, refused⟩ := (repeated_structs_merged _ apart').refused
      ⟨[], [("Owner", .address), ("Room", .address)]⟩ [cornersOf (.word "N"), pointItem] _ [] rfl rfl
      (List.forall_mem_cons.mpr ⟨⟨_, rfl⟩, List.forall_mem_singleton.mpr ⟨_, rfl⟩⟩)
      ⟨_, List.mem_cons_self, rfl, _, _, rfl, rfl, by decide⟩
    have named : y.name = "Box" := by
      simp only [boxes, List.mem_cons, List.not_mem_nil, or_false] at first second
      obtain ⟨same, fields, others, resolved, resolved', differ⟩ := found
      rcases second with rfl | rfl | rfl
      · rfl
      · -- The points are declared once.
        rcases first with rfl | rfl | rfl
        · contradiction
        · exact absurd (Except.ok.inj (resolved.symm.trans resolved')) differ
        · contradiction
      · rfl
    rw [named] at refused
    exact refused

end SourceUnit

end Source

end ContractRegistry
