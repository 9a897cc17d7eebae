import ContractRegistry.Proofs.Outcome
import ContractRegistry.Proofs.Source.Names

/-!
What the order of a contract and its bases depends on.

Only contracts and bases of the source stand in an order, and two sources that know the same contracts
give the same order, however many others they have.
-/
namespace ContractRegistry.Source

namespace Inheritance

theorem mem_of_dropHead {name other : String} {list : List String}
    (mem : other ∈ dropHead name list) : other ∈ list := by
  cases list with
  | nil => exact mem
  | cons head tail =>
    simp only [dropHead] at mem
    split at mem
    · exact List.mem_cons_of_mem _ mem
    · exact mem

theorem mem_of_nextHead? {lists : List (List String)} {head : String}
    (run : nextHead? lists = some head) : head ∈ lists.flatten := by
  obtain ⟨list, within, first⟩ := List.mem_filterMap.mp (List.mem_of_find?_eq_some run)
  exact List.mem_flatten.mpr ⟨list, within, List.mem_of_head? first⟩

theorem mem_of_merge? {steps : Nat} {lists : List (List String)} {merged : List String}
    (run : merge? steps lists = some merged) : ∀ name ∈ merged, name ∈ lists.flatten := by
  induction steps generalizing lists merged with
  | zero =>
    simp only [merge?] at run
    split at run
    · cases run
      simp
    · contradiction
  | succ steps ih =>
    simp only [merge?] at run
    split at run
    · cases run
      simp
    · obtain ⟨head, next, run⟩ := Option.bind_eq_some_iff.mp run
      obtain ⟨rest, more, run⟩ := Option.bind_eq_some_iff.mp run
      cases run
      intro name mem
      rcases List.mem_cons.mp mem with rfl | mem
      · exact mem_of_nextHead? next
      · obtain ⟨list, within, mem⟩ := List.mem_flatten.mp (ih more name mem)
        obtain ⟨whole, inside, rfl⟩ := List.mem_map.mp within
        exact List.mem_flatten.mpr ⟨whole, inside, mem_of_dropHead mem⟩

end Inheritance

namespace SourceUnit

open Inheritance

theorem contract?_mem {u : SourceUnit} {name : String} {c : ContractItem}
    (found : u.contract? name = some c) : c ∈ u.contracts ∧ c.name = name := by
  refine ⟨List.mem_of_find?_eq_some found, ?_⟩
  simpa using List.find?_some found

theorem baseOrders_forall {u : SourceUnit} {contract : String} {bases : List String}
    {order : ContractItem → Except SourceError (List String)} {orders : List (List String)}
    (run : u.baseOrders contract order bases = .ok orders) :
    ∀ list ∈ orders, ∃ base c, u.contract? base = some c ∧ order c = .ok list := by
  induction bases generalizing orders with
  | nil =>
    cases run
    simp
  | cons base bases ih =>
    simp only [baseOrders] at run
    split at run
    · contradiction
    · rename_i c found
      obtain ⟨first, head, run⟩ := bind_eq_ok.mp run
      obtain ⟨rest, tail, run⟩ := bind_eq_ok.mp run
      cases run
      intro list mem
      rcases List.mem_cons.mp mem with rfl | mem
      · exact ⟨base, c, found, head⟩
      · exact ih tail list mem

/-- Names that hold all contracts and bases of a source hold its orders. -/
theorem linearize_forall {u : SourceUnit} (known : String → Prop)
    (contracts : ∀ c ∈ u.contracts, known c.name ∧ ∀ base ∈ c.bases, known base) {depth : Nat}
    {opened : List String} {c : ContractItem} {order : List String} (mem : c ∈ u.contracts)
    (run : u.linearize depth opened c = .ok order) : ∀ name ∈ order, known name := by
  induction depth generalizing opened c order with
  | zero => contradiction
  | succ depth ih =>
    simp only [linearize] at run
    split at run
    · contradiction
    · obtain ⟨orders, bases, run⟩ := bind_eq_ok.mp run
      split at run
      · rename_i merged merge
        cases run
        intro name within
        rcases List.mem_cons.mp within with rfl | within
        · exact (contracts c mem).1
        · obtain ⟨list, listed, within⟩ := List.mem_flatten.mp (mem_of_merge? merge name within)
          rcases List.mem_append.mp listed with listed | listed
          · obtain ⟨base, d, found, run⟩ := baseOrders_forall bases list listed
            exact ih (contract?_mem found).1 run name within
          · rw [List.mem_singleton.mp listed] at within
            exact (contracts c mem).2 name (List.mem_reverse.mp within)
      · contradiction

theorem baseOrders_congr {u v : SourceUnit} {contract : String}
    {order order' : ContractItem → Except SourceError (List String)} {bases : List String}
    (same : ∀ base ∈ bases, u.contract? base = v.contract? base)
    (orders : ∀ base ∈ bases, ∀ c, u.contract? base = some c → order c = order' c) :
    u.baseOrders contract order bases = v.baseOrders contract order' bases := by
  induction bases with
  | nil => rfl
  | cons base bases ih =>
    have rest := ih (fun other mem => same other (List.mem_cons_of_mem _ mem))
      fun other mem => orders other (List.mem_cons_of_mem _ mem)
    simp only [baseOrders, ← same base List.mem_cons_self, ← rest]
    cases found : u.contract? base with
    | none => rfl
    | some c => simp only [orders base List.mem_cons_self c found]

/-- Sources that agree on the bases of all contracts of the first give them the same orders. -/
theorem linearize_congr {u v : SourceUnit} (within : ∀ c ∈ u.contracts, c ∈ v.contracts)
    (same : ∀ c ∈ u.contracts, ∀ base ∈ c.bases, u.contract? base = v.contract? base)
    {depth depth' : Nat} {opened : List String} {c : ContractItem} (mem : c ∈ u.contracts)
    (enough : unopened (u.contracts.map (·.name)) opened < depth)
    (enough' : unopened (v.contracts.map (·.name)) opened < depth') :
    u.linearize depth opened c = v.linearize depth' opened c := by
  -- The depths differ by the contracts that only one source has; those are never opened.
  induction depth generalizing depth' opened c with
  | zero => exact absurd enough (Nat.not_lt_zero _)
  | succ depth ih =>
    obtain ⟨depth', rfl⟩ : ∃ d, depth' = d + 1 := ⟨depth' - 1, by omega⟩
    by_cases again : c.name ∈ opened
    · simp only [linearize, if_pos again]
    · have fewer := unopened_lt (List.mem_map_of_mem (f := (·.name)) mem) again
      have fewer' := unopened_lt (List.mem_map_of_mem (f := (·.name)) (within c mem)) again
      have orders : u.baseOrders c.name (u.linearize depth (c.name :: opened)) c.bases.reverse =
          v.baseOrders c.name (v.linearize depth' (c.name :: opened)) c.bases.reverse :=
        baseOrders_congr (fun base listed => same c mem base (List.mem_reverse.mp listed))
          fun base _ d found => ih (contract?_mem found).1 (by omega) (by omega)
      simp only [linearize, if_neg again, orders]

theorem inheritance_congr {u v : SourceUnit} (within : ∀ c ∈ u.contracts, c ∈ v.contracts)
    (same : ∀ c ∈ u.contracts, ∀ base ∈ c.bases, u.contract? base = v.contract? base)
    {c : ContractItem} (mem : c ∈ u.contracts) : u.inheritance c = v.inheritance c := by
  have enough (w : SourceUnit) : unopened (w.contracts.map (·.name)) [] < w.contracts.length + 1 := by
    have := unopened_le_length (w.contracts.map (·.name)) []
    rw [List.length_map] at this
    exact Nat.lt_succ_of_le this
  exact linearize_congr within same mem (enough u) (enough v)

end SourceUnit

end ContractRegistry.Source
