import ContractRegistry.Proofs.Source.Merge
import Mathlib.Data.List.Forall2
import Mathlib.Data.List.Nodup
import Mathlib.Logic.Relation

/-!
The order of a contract and its bases.

An order has the contract first and every contract that it inherits from behind it, each once. It keeps
the orders of the direct bases and the order in which these are declared. A contract has an order exactly
when its direct bases have theirs, it does not inherit from itself, and one order of all names keeps them
all. The storage of a contract is that of the contracts in its order, the most basic first.
-/
namespace ContractRegistry.Source.SourceUnit

open Inheritance

def DirectBase (u : SourceUnit) (name base : String) : Prop :=
  ∃ c, u.contract? name = some c ∧ base ∈ c.bases

def Inherits (u : SourceUnit) : String → String → Prop :=
  Relation.TransGen u.DirectBase

def BaseOrder (u : SourceUnit) (order : ContractItem → Except SourceError (List String))
    (base : String) (list : List String) : Prop :=
  ∃ d, u.contract? base = some d ∧ order d = .ok list

theorem exists_mem_of_forall₂ {α β : Type} {related : α → β → Prop} {as : List α} {bs : List β}
    (all : List.Forall₂ related as bs) {a : α} (mem : a ∈ as) : ∃ b ∈ bs, related a b := by
  induction all with
  | nil => contradiction
  | cons first _ ih =>
    rcases List.mem_cons.mp mem with rfl | mem
    · exact ⟨_, List.mem_cons_self, first⟩
    · obtain ⟨b, listed, both⟩ := ih mem
      exact ⟨b, List.mem_cons_of_mem _ listed, both⟩

variable {u : SourceUnit}

theorem baseOrders_eq_ok {contract : String} {bases : List String}
    {order : ContractItem → Except SourceError (List String)} {orders : List (List String)} :
    u.baseOrders contract order bases = .ok orders ↔
      List.Forall₂ (u.BaseOrder order) bases orders := by
  induction bases generalizing orders with
  | nil =>
    constructor
    · intro run
      obtain rfl := Except.ok.inj run
      exact .nil
    · intro all
      cases all
      rfl
  | cons base bases ih =>
    constructor
    · intro run
      simp only [baseOrders] at run
      split at run
      · contradiction
      · rename_i d found
        obtain ⟨first, head, run⟩ := bind_eq_ok.mp run
        obtain ⟨rest, tail, same⟩ := bind_eq_ok.mp run
        obtain rfl := Except.ok.inj same
        exact .cons ⟨d, found, head⟩ (ih.mp tail)
    · intro all
      cases all with
      | cons first rest =>
        obtain ⟨d, found, head⟩ := first
        have tail := ih.mpr rest
        simp only [baseOrders, found]
        exact bind_eq_ok.mpr ⟨_, head, bind_eq_ok.mpr ⟨_, tail, rfl⟩⟩

/-- All that a successful walk does: the contract is not opened yet, its bases have orders, and these
merge. -/
theorem linearize_eq_ok {depth : Nat} {opened : List String} {c : ContractItem}
    {order : List String} :
    u.linearize depth opened c = .ok order ↔
      ∃ fewer orders rest, depth = fewer + 1 ∧ c.name ∉ opened ∧
        List.Forall₂ (u.BaseOrder (u.linearize fewer (c.name :: opened))) c.bases.reverse orders ∧
        merge? (nameCount (orders ++ [c.bases.reverse])) (orders ++ [c.bases.reverse]) = some rest ∧
        order = c.name :: rest := by
  constructor
  · intro run
    cases depth with
    | zero => contradiction
    | succ fewer =>
      simp only [linearize] at run
      split at run
      · contradiction
      · rename_i closed
        obtain ⟨orders, bases, run⟩ := bind_eq_ok.mp run
        split at run
        · rename_i rest merged
          exact ⟨fewer, orders, rest, rfl, closed, baseOrders_eq_ok.mp bases, merged,
            (Except.ok.inj run).symm⟩
        · contradiction
  · rintro ⟨fewer, orders, rest, rfl, closed, bases, merged, rfl⟩
    simp only [linearize, if_neg closed]
    refine bind_eq_ok.mpr ⟨orders, baseOrders_eq_ok.mpr bases, ?_⟩
    simp only [merged]

theorem contract?_name {name : String} {c : ContractItem} (found : u.contract? name = some c) :
    u.contract? c.name = some c := by
  rw [(contract?_mem found).2]
  exact found

/-- What a walk reaches was not opened before it, stands in the order and does not inherit from
itself. -/
theorem linearize_reaches {depth : Nat} {opened : List String} {c : ContractItem}
    {order : List String} (found : u.contract? c.name = some c)
    (run : u.linearize depth opened c = .ok order) {name : String}
    (reached : Relation.ReflTransGen u.DirectBase c.name name) :
    name ∉ opened ∧ name ∈ order ∧ ¬ u.Inherits name name := by
  -- A contract that came back to itself would be met again by the walk from one of its bases, which has
  -- it opened.
  induction depth generalizing opened c order name with
  | zero => contradiction
  | succ depth ih =>
    obtain ⟨fewer, orders, rest, count, closed, bases, merged, rfl⟩ := linearize_eq_ok.mp run
    obtain rfl := Nat.succ.inj count
    have below {base : String} (direct : u.DirectBase c.name base) {other : String}
        (path : Relation.ReflTransGen u.DirectBase base other) :
        other ∉ c.name :: opened ∧ other ∈ rest ∧ ¬ u.Inherits other other := by
      obtain ⟨c', found', listed⟩ := direct
      obtain rfl := Option.some.inj (found.symm.trans found')
      obtain ⟨list, within, d, known, walked⟩ :=
        exists_mem_of_forall₂ bases (List.mem_reverse.mpr listed)
      obtain rfl := (contract?_mem known).2
      obtain ⟨fresh, inList, acyclic⟩ := ih (contract?_name known) walked path
      have kept := sublist_of_merge? merged list (List.mem_append_left _ within)
      exact ⟨fresh, kept.subset inList, acyclic⟩
    rcases reached.cases_head with rfl | ⟨base, direct, path⟩
    · refine ⟨closed, List.mem_cons_self, fun cycle => ?_⟩
      obtain ⟨base, direct, path⟩ := Relation.TransGen.head'_iff.mp cycle
      exact (below direct path).1 List.mem_cons_self
    · obtain ⟨fresh, inRest, acyclic⟩ := below direct path
      exact ⟨fun mem => fresh (List.mem_cons_of_mem _ mem), List.mem_cons_of_mem _ inRest, acyclic⟩

/-- An order has no other names than those that the walk reaches, and they are all declared. -/
theorem reached_of_mem_linearize {depth : Nat} {opened : List String} {c : ContractItem}
    {order : List String} (found : u.contract? c.name = some c)
    (run : u.linearize depth opened c = .ok order) {name : String} (mem : name ∈ order) :
    Relation.ReflTransGen u.DirectBase c.name name ∧ ∃ d, u.contract? name = some d := by
  induction depth generalizing opened c order name with
  | zero => contradiction
  | succ depth ih =>
    obtain ⟨fewer, orders, rest, count, _, bases, merged, rfl⟩ := linearize_eq_ok.mp run
    obtain rfl := Nat.succ.inj count
    rcases List.mem_cons.mp mem with rfl | mem
    · exact ⟨.refl, c, found⟩
    · obtain ⟨list, listed, within⟩ := List.mem_flatten.mp (mem_of_merge? merged name mem)
      rcases List.mem_append.mp listed with listed | listed
      · obtain ⟨base, declared, d, known, walked⟩ := exists_mem_of_forall₂ bases.flip listed
        obtain rfl := (contract?_mem known).2
        obtain ⟨path, isContract⟩ := ih (contract?_name known) walked within
        have direct : u.DirectBase c.name d.name := ⟨c, found, List.mem_reverse.mp declared⟩
        exact ⟨.head direct path, isContract⟩
      · rw [List.mem_singleton.mp listed] at within
        obtain ⟨_, _, d, known, _⟩ := exists_mem_of_forall₂ bases within
        exact ⟨.single ⟨c, found, List.mem_reverse.mp within⟩, d, known⟩

/-- The order does not depend on what is opened, as long as the walk does not meet it, nor on the depth,
as long as it is enough. -/
theorem linearize_transfer {depth depth' : Nat} {opened opened' : List String} {c : ContractItem}
    {order : List String} (found : u.contract? c.name = some c)
    (run : u.linearize depth opened c = .ok order)
    (avoids : ∀ name, Relation.ReflTransGen u.DirectBase c.name name → name ∉ opened')
    (enough : unopened (u.contracts.map (·.name)) opened' < depth') :
    u.linearize depth' opened' c = .ok order := by
  induction depth generalizing depth' opened opened' c order with
  | zero => contradiction
  | succ depth ih =>
    have acyclic := (linearize_reaches found run .refl).2.2
    obtain ⟨fewer, orders, rest, count, _, bases, merged, rfl⟩ := linearize_eq_ok.mp run
    obtain rfl := Nat.succ.inj count
    obtain ⟨fewer', rfl⟩ : ∃ fewer', depth' = fewer' + 1 := ⟨depth' - 1, by omega⟩
    have closed := avoids c.name .refl
    have known : c.name ∈ u.contracts.map (·.name) := List.mem_map_of_mem (contract?_mem found).1
    have less := unopened_lt known closed
    refine linearize_eq_ok.mpr ⟨fewer', orders, rest, rfl, closed, ?_, merged, rfl⟩
    have members : List.Forall₂ (fun base list => base ∈ c.bases.reverse ∧ u.BaseOrder _ base list)
        c.bases.reverse orders := (List.forall₂_and_left _ _).mpr ⟨fun _ mem => mem, bases⟩
    refine members.imp ?_
    rintro base list ⟨mem, d, known, walked⟩
    obtain rfl := (contract?_mem known).2
    have direct : u.DirectBase c.name d.name := ⟨c, found, List.mem_reverse.mp mem⟩
    refine ⟨d, known, ih (contract?_name known) walked ?_ (by omega)⟩
    intro name path mem
    rcases List.mem_cons.mp mem with rfl | mem
    · exact acyclic (Relation.TransGen.head' direct path)
    · exact avoids name (.head direct path) mem

theorem unopened_lt_enough (u : SourceUnit) :
    unopened (u.contracts.map (·.name)) [] < u.contracts.length + 1 := by
  have := unopened_le_length (u.contracts.map (·.name)) []
  rw [List.length_map] at this
  omega

theorem inheritance_of_linearize {depth : Nat} {opened : List String} {c : ContractItem}
    {order : List String} (found : u.contract? c.name = some c)
    (run : u.linearize depth opened c = .ok order) : u.inheritance c = .ok order :=
  linearize_transfer found run (fun _ _ => List.not_mem_nil) u.unopened_lt_enough

/-- A base with an order has the same order when it is walked to from a contract that it does not
inherit from. -/
theorem baseOrder_opened {c : ContractItem} (found : u.contract? c.name = some c)
    (acyclic : ¬ u.Inherits c.name c.name) {base : String} (declared : base ∈ c.bases)
    {list : List String} (ordered : u.BaseOrder u.inheritance base list) :
    u.BaseOrder (u.linearize u.contracts.length [c.name]) base list := by
  obtain ⟨d, known, walked⟩ := ordered
  obtain rfl := (contract?_mem known).2
  have direct : u.DirectBase c.name d.name := ⟨c, found, declared⟩
  refine ⟨d, known, linearize_transfer (contract?_name known) walked ?_ ?_⟩
  · intro name path mem
    rw [List.mem_singleton.mp mem] at path
    exact acyclic (Relation.TransGen.head' direct path)
  · have isContract : c.name ∈ u.contracts.map (·.name) :=
      List.mem_map_of_mem (contract?_mem found).1
    have less := unopened_lt isContract (List.not_mem_nil (a := c.name))
    have := u.unopened_lt_enough
    omega

/-- What an order of a contract is. -/
structure OrderLaw (u : SourceUnit) (c : ContractItem) (order : List String) : Prop where
  first : order.head? = some c.name
  distinct : order.Nodup
  members : ∀ name, name ∈ order ↔ name = c.name ∨ u.Inherits c.name name
  bases : ∀ base ∈ c.bases, ∃ list, u.BaseOrder u.inheritance base list ∧ list.Sublist order
  declared : c.bases.reverse.Sublist order

theorem inheritance_law {c : ContractItem} {order : List String}
    (found : u.contract? c.name = some c) (run : u.inheritance c = .ok order) :
    OrderLaw u c order := by
  obtain ⟨fewer, orders, rest, count, _, bases, merged, rfl⟩ := linearize_eq_ok.mp run
  have kept := sublist_of_merge? merged
  have reached {name : String} : name ∈ c.name :: rest ↔
      Relation.ReflTransGen u.DirectBase c.name name :=
    ⟨fun mem => (reached_of_mem_linearize found run mem).1,
      fun path => (linearize_reaches found run path).2.1⟩
  constructor
  · rfl
  · -- The contract is in none of the merged lists, because it does not inherit from itself.
    refine List.nodup_cons.mpr ⟨fun again => ?_, nodup_of_merge? merged⟩
    have acyclic := (linearize_reaches found run .refl).2.2
    obtain ⟨list, listed, within⟩ := List.mem_flatten.mp (mem_of_merge? merged c.name again)
    rcases List.mem_append.mp listed with listed | listed
    · obtain ⟨base, declared, d, known, walked⟩ := exists_mem_of_forall₂ bases.flip listed
      obtain rfl := (contract?_mem known).2
      have path := (reached_of_mem_linearize (contract?_name known) walked within).1
      exact acyclic (Relation.TransGen.head' ⟨c, found, List.mem_reverse.mp declared⟩ path)
    · rw [List.mem_singleton.mp listed] at within
      exact acyclic (.single ⟨c, found, List.mem_reverse.mp within⟩)
  · intro name
    rw [reached, Relation.reflTransGen_iff_eq_or_transGen]
    exact Iff.rfl
  · intro base declared
    obtain ⟨list, listed, d, known, walked⟩ :=
      exists_mem_of_forall₂ bases (List.mem_reverse.mpr declared)
    have whole := inheritance_of_linearize (contract?_name known) walked
    exact ⟨list, ⟨d, known, whole⟩, (kept list (List.mem_append_left _ listed)).cons _⟩
  · exact (kept c.bases.reverse (by simp)).cons _

structure Linear (u : SourceUnit) (c : ContractItem) : Prop where
  bases : ∀ base ∈ c.bases, ∃ list, u.BaseOrder u.inheritance base list
  acyclic : ¬ u.Inherits c.name c.name
  compatible : ∃ below : String → String → Prop, IsStrictTotalOrder String below ∧
    (∀ base ∈ c.bases, ∀ list, u.BaseOrder u.inheritance base list → list.Pairwise below) ∧
    c.bases.reverse.Pairwise below

theorem baseOrder_unique {order : ContractItem → Except SourceError (List String)} {base : String}
    {first second : List String} (one : u.BaseOrder order base first)
    (two : u.BaseOrder order base second) : first = second := by
  obtain ⟨d, known, walked⟩ := one
  obtain ⟨d', known', walked'⟩ := two
  obtain rfl := Option.some.inj (known.symm.trans known')
  exact Except.ok.inj (walked.symm.trans walked')

theorem linear_of_inheritance {c : ContractItem} {order : List String}
    (found : u.contract? c.name = some c) (run : u.inheritance c = .ok order) : Linear u c := by
  have law := inheritance_law found run
  have sorted := pairwise_before law.distinct
  constructor
  · intro base declared
    obtain ⟨list, ordered, _⟩ := law.bases base declared
    exact ⟨list, ordered⟩
  · exact (linearize_reaches found run .refl).2.2
  · refine ⟨Before order, before_total order, ?_, sorted.sublist law.declared⟩
    intro base declared list ordered
    obtain ⟨list', ordered', kept⟩ := law.bases base declared
    rw [baseOrder_unique ordered ordered']
    exact sorted.sublist kept

theorem exists_orders {order : ContractItem → Except SourceError (List String)} {bases : List String}
    (all : ∀ base ∈ bases, ∃ list, u.BaseOrder order base list) :
    ∃ orders, List.Forall₂ (u.BaseOrder order) bases orders := by
  induction bases with
  | nil => exact ⟨[], .nil⟩
  | cons base bases ih =>
    obtain ⟨first, ordered⟩ := all base List.mem_cons_self
    obtain ⟨rest, others⟩ := ih fun other mem => all other (List.mem_cons_of_mem _ mem)
    exact ⟨first :: rest, .cons ordered others⟩

theorem exists_inheritance {c : ContractItem} (found : u.contract? c.name = some c)
    (linear : Linear u c) : ∃ order, u.inheritance c = .ok order := by
  obtain ⟨below, total, sorted, declared⟩ := linear.compatible
  have opened : ∀ base ∈ c.bases.reverse,
      ∃ list, u.BaseOrder (u.linearize u.contracts.length [c.name]) base list := by
    intro base mem
    obtain ⟨list, ordered⟩ := linear.bases base (List.mem_reverse.mp mem)
    exact ⟨list, baseOrder_opened found linear.acyclic (List.mem_reverse.mp mem) ordered⟩
  obtain ⟨orders, walked⟩ := exists_orders opened
  have compatible : ∀ list ∈ orders ++ [c.bases.reverse], list.Pairwise below := by
    intro list mem
    rcases List.mem_append.mp mem with mem | mem
    · obtain ⟨base, listed, d, known, run⟩ := exists_mem_of_forall₂ walked.flip mem
      obtain rfl := (contract?_mem known).2
      have whole := inheritance_of_linearize (contract?_name known) run
      exact sorted d.name (List.mem_reverse.mp listed) list ⟨d, known, whole⟩
    · rw [List.mem_singleton.mp mem]
      exact declared
  obtain ⟨rest, merged⟩ := (merge?_isSome_iff _).mpr ⟨below, total, compatible⟩
  exact ⟨c.name :: rest, linearize_eq_ok.mpr
    ⟨_, orders, rest, rfl, List.not_mem_nil, walked, merged, rfl⟩⟩

theorem contract?_of_distinct (distinct : (u.contracts.map (·.name)).Nodup) {c : ContractItem}
    (mem : c ∈ u.contracts) : u.contract? c.name = some c := by
  cases found : u.contract? c.name with
  | none =>
    have absent := List.find?_eq_none.mp found c mem
    simp at absent
  | some d =>
    obtain ⟨listed, same⟩ := contract?_mem found
    rw [List.inj_on_of_nodup_map distinct listed mem same]

theorem target_mem {asked : Option String} {c : ContractItem} (run : u.target asked = .ok c) :
    c ∈ u.contracts := by
  unfold target at run
  split at run
  · split at run
    · rename_i found
      obtain rfl := Except.ok.inj run
      exact (contract?_mem found).1
    · contradiction
  · split at run
    · rename_i found
      obtain rfl := Except.ok.inj run
      exact List.mem_reverse.mp (List.mem_of_find?_eq_some found)
    · contradiction

structure Resolved (catalog : Catalog) (constants : Constants) (v : VariableItem) (d : Declaration) :
    Prop where
  name : d.name = v.name
  ty : v.ty.resolve catalog constants = .ok d.ty
  visibility : d.visibility = v.visibility
  mutability : d.mutability = v.mutability

theorem resolveVariables_resolved {catalog : Catalog} {constants : Constants}
    {items : List VariableItem} {declarations : List Declaration}
    (run : resolveVariables catalog constants items = .ok declarations) :
    List.Forall₂ (Resolved catalog constants) items declarations := by
  induction items generalizing declarations with
  | nil =>
    obtain rfl := Except.ok.inj run
    exact .nil
  | cons v vs ih =>
    obtain ⟨ty, first, run⟩ := bind_eq_ok.mp run
    obtain ⟨rest, others, same⟩ := bind_eq_ok.mp run
    obtain rfl := Except.ok.inj same
    exact .cons ⟨rfl, first, rfl, rfl⟩ (ih others)

theorem number_eq (declarations : List Declaration) (told : List (Nat × Declaration)) :
    number told declarations = told ++ (declarations.zipIdx told.length).map Prod.swap := by
  induction declarations generalizing told with
  | nil => simp [number]
  | cons d ds ih => simp [number, ih]

theorem getElem?_numbered (source : ContractSource) (position : Nat) :
    source.numbered[position]? = (source.declarations[position]?).map fun d => (position, d) := by
  rw [ContractSource.numbered, number_eq]
  simp [List.getElem?_zipIdx, Function.comp_def]

/-- All that a selection does: the types, the contract with its order, and the variables in this order. -/
theorem select_eq_ok {asked : Option String} {source : ContractSource} :
    u.select asked = .ok source ↔ ∃ d order contained, u.catalog = .ok source.catalog ∧
      u.target asked = .ok d ∧ u.inheritance d = .ok order ∧
      resolveVariables source.catalog u.constantTable (order.reverse.flatMap u.variablesOf) =
        .ok source.declarations ∧
      orRefuse source.catalog.validate = .ok contained ∧ source.contract = d.name := by
  constructor
  · intro run
    obtain ⟨catalog, types, run⟩ := bind_eq_ok.mp run
    obtain ⟨d, selected, run⟩ := tell_bind_eq_ok.mp run
    obtain ⟨order, ordered, run⟩ := tell_bind_eq_ok.mp run
    obtain ⟨declarations, resolved, run⟩ := tell_bind_eq_ok.mp run
    obtain ⟨contained, valid, eq⟩ := tell_bind_eq_ok.mp run
    obtain rfl := Except.ok.inj eq
    exact ⟨d, order, contained, types, selected, ordered, resolved, valid, rfl⟩
  · obtain ⟨contract, catalog, declarations⟩ := source
    rintro ⟨d, order, contained, types, selected, ordered, resolved, valid, rfl⟩
    exact bind_eq_ok.mpr ⟨catalog, types, tell_bind_eq_ok.mpr ⟨d, selected,
      tell_bind_eq_ok.mpr ⟨order, ordered, tell_bind_eq_ok.mpr ⟨declarations, resolved,
        tell_bind_eq_ok.mpr ⟨contained, valid, rfl⟩⟩⟩⟩⟩

theorem exists_contracts {order : List String}
    (declared : ∀ name ∈ order, ∃ d, u.contract? name = some d) :
    ∃ contracts : List ContractItem, contracts.map (·.name) = order ∧
      ∀ d ∈ contracts, d ∈ u.contracts ∧ u.variablesOf d.name = d.declared := by
  induction order with
  | nil => exact ⟨[], rfl, by simp⟩
  | cons name order ih =>
    obtain ⟨d, found⟩ := declared name List.mem_cons_self
    obtain ⟨rest, names, others⟩ := ih fun other mem => declared other (List.mem_cons_of_mem _ mem)
    obtain ⟨listed, rfl⟩ := contract?_mem found
    refine ⟨d :: rest, by rw [List.map_cons, names], List.forall_mem_cons.mpr ⟨⟨listed, ?_⟩, others⟩⟩
    simp only [variablesOf, found]

/-- The variables of a selected contract. -/
structure StorageLaw (u : SourceUnit) (asked : Option String) (source : ContractSource)
    (c : ContractItem) (order : List String) (contracts : List ContractItem) : Prop where
  target : u.target asked = .ok c
  ordered : u.inheritance c = .ok order
  names : contracts.map (·.name) = order
  within : ∀ d ∈ contracts, d ∈ u.contracts
  resolved : List.Forall₂ (Resolved source.catalog u.constantTable)
    (contracts.reverse.flatMap (·.declared)) source.declarations
  numbered : ∀ position : Nat, source.numbered[position]? =
    (source.declarations[position]?).map fun d => (position, d)

theorem select_storage (distinct : (u.contracts.map (·.name)).Nodup) {asked : Option String}
    {source : ContractSource} (run : u.select asked = .ok source) :
    ∃ c order contracts, StorageLaw u asked source c order contracts := by
  obtain ⟨c, order, _, _, selected, ordered, resolved, _, _⟩ := select_eq_ok.mp run
  have found := contract?_of_distinct distinct (target_mem selected)
  have declared : ∀ name ∈ order, ∃ d, u.contract? name = some d :=
    fun name mem => (reached_of_mem_linearize found ordered mem).2
  obtain ⟨contracts, names, all⟩ := exists_contracts declared
  have joined : order.reverse.flatMap u.variablesOf = contracts.reverse.flatMap (·.declared) := by
    rw [← names, ← List.map_reverse, List.flatMap_map]
    exact List.flatMap_congr fun d mem => (all d (List.mem_reverse.mp mem)).2
  rw [joined] at resolved
  exact ⟨c, order, contracts, selected, ordered, names, fun d mem => (all d mem).1,
    resolveVariables_resolved resolved, getElem?_numbered _⟩

/-- Walking along bases comes to an end, with an error when a contract inherits from itself; the orders
are those of the bases in one, and there are no others; and the storage of a contract is that of the
contracts in its order, from the last to the first. -/
structure InheritanceLaw (u : SourceUnit) : Prop where
  ends : ∀ c ∈ u.contracts, ∀ depth, u.contracts.length < depth →
    u.linearize depth [] c = u.inheritance c
  mergeEnds : ∀ lists steps, nameCount lists ≤ steps →
    merge? steps lists = merge? (nameCount lists) lists
  cyclic : ∀ c ∈ u.contracts, ∀ name, name = c.name ∨ u.Inherits c.name name →
    u.Inherits name name → ∃ e, u.inheritance c = .error e
  order : ∀ c ∈ u.contracts, ∀ order, u.inheritance c = .ok order → OrderLaw u c order
  linear_iff : ∀ c ∈ u.contracts, (∃ order, u.inheritance c = .ok order) ↔ Linear u c
  stored : ∀ asked source, u.select asked = .ok source →
    ∃ c order contracts, StorageLaw u asked source c order contracts

theorem inheritance_merges_bases (u : SourceUnit) (distinct : (u.contracts.map (·.name)).Nodup) :
    InheritanceLaw u where
  ends := by
    intro c mem depth enough
    have := u.unopened_lt_enough
    exact linearize_congr (fun _ mem => mem) (fun _ _ _ _ => rfl) mem (by omega) u.unopened_lt_enough
  mergeEnds := fun lists steps enough => merge?_enough enough (Nat.le_refl _)
  cyclic := by
    intro c mem name reached cycle
    cases run : u.inheritance c with
    | error e => exact ⟨e, rfl⟩
    | ok order =>
      have found := contract?_of_distinct distinct mem
      have path := Relation.reflTransGen_iff_eq_or_transGen.mpr reached
      exact absurd cycle (linearize_reaches found run path).2.2
  order := fun c mem order run => inheritance_law (contract?_of_distinct distinct mem) run
  linear_iff := fun c mem =>
    ⟨fun ⟨_, run⟩ => linear_of_inheritance (contract?_of_distinct distinct mem) run,
      exists_inheritance (contract?_of_distinct distinct mem)⟩
  stored := fun asked source run => select_storage distinct run

/-- A contract with these bases and one variable, which is named like the contract. -/
def heir (name : String) (bases : List String) : ContractItem :=
  ⟨name, .plain, bases, [⟨name, .named "uint256" 1, none, .mutable, none⟩]⟩

/-- `contract A { … } contract B is A { … } contract C is A { … } contract D is B, C { … }` -/
def diamond : SourceUnit :=
  { SourceUnit.empty with
    contracts := [heir "A" [], heir "B" ["A"], heir "C" ["A"], heir "D" ["B", "C"]] }

theorem diamond_merged :
    (diamond.contracts.map (·.name)).Nodup ∧
      diamond.inheritance (heir "D" ["B", "C"]) = .ok ["D", "C", "B", "A"] ∧
      OrderLaw diamond (heir "D" ["B", "C"]) ["D", "C", "B", "A"] ∧
      ∃ source c order contracts, diamond.select (some "D") = .ok source ∧
        source.numbered.map (fun v => (v.1, v.2.name)) = [(0, "A"), (1, "B"), (2, "C"), (3, "D")] ∧
        StorageLaw diamond (some "D") source c order contracts := by
  have distinct : (diamond.contracts.map (·.name)).Nodup := by decide
  have law := inheritance_merges_bases diamond distinct
  obtain ⟨c, order, contracts, stored⟩ := law.stored (some "D") _ rfl
  exact ⟨distinct, rfl, law.order _ (by simp [diamond]) _ rfl, _, c, order, contracts, rfl, rfl,
    stored⟩

end ContractRegistry.Source.SourceUnit
