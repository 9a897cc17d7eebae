import ContractRegistry.Proofs.Source.Inheritance
import Mathlib.Data.String.Basic
import Mathlib.Order.RelClasses

/-!
What a merge of orders gives.

A merged list has each name once and keeps the order of every list that went into it. There is one exactly
when some order of the names keeps the order of all the lists: as long as there is such an order, the
least of the heads is in no tail.
-/
namespace ContractRegistry.Source.Inheritance

theorem sublist_of_dropHead {head : String} {list merged : List String}
    (rest : (dropHead head list).Sublist merged) : list.Sublist (head :: merged) := by
  cases list with
  | nil => exact List.nil_sublist _
  | cons first tail =>
    simp only [dropHead] at rest
    split at rest
    · rename_i same
      subst same
      exact rest.cons_cons first
    · exact rest.cons head

theorem dropHead_sublist (head : String) (list : List String) :
    (dropHead head list).Sublist list := by
  cases list with
  | nil => exact List.nil_sublist _
  | cons first tail =>
    simp only [dropHead]
    split
    · exact List.sublist_cons_self first tail
    · exact List.Sublist.refl _

theorem notMem_dropHead {head : String} {list : List String} (outside : inTail head list = false) :
    head ∉ dropHead head list := by
  cases list with
  | nil => exact List.not_mem_nil
  | cons first tail =>
    have absent : head ∉ tail := by simpa [inTail] using outside
    simp only [dropHead]
    split
    · exact absent
    · rename_i other
      simp [Ne.symm other, absent]

theorem nextHead?_outside {lists : List (List String)} {head : String}
    (run : nextHead? lists = some head) : ∀ list ∈ lists, inTail head list = false := by
  have chosen := List.find?_some run
  intro list mem
  rw [Bool.not_eq_true', List.any_eq_false] at chosen
  exact Bool.eq_false_iff.mpr (chosen list mem)

theorem nextHead?_first {lists : List (List String)} {head : String}
    (run : nextHead? lists = some head) : ∃ tail, head :: tail ∈ lists := by
  obtain ⟨list, mem, first⟩ := List.mem_filterMap.mp (List.mem_of_find?_eq_some run)
  obtain ⟨tail, rfl⟩ := List.head?_eq_some_iff.mp first
  exact ⟨tail, mem⟩

theorem merge?_cases {steps : Nat} {lists : List (List String)} {merged : List String}
    (run : merge? steps lists = some merged) :
    (merged = [] ∧ ∀ list ∈ lists, list = []) ∨
      ∃ fewer head rest, steps = fewer + 1 ∧ nextHead? lists = some head ∧
        merge? fewer (lists.map (dropHead head)) = some rest ∧ merged = head :: rest := by
  by_cases finished : lists.all List.isEmpty = true
  · left
    have nothing : merged = [] := by
      cases steps <;> simpa [merge?, finished] using run.symm
    exact ⟨nothing, by simpa using finished⟩
  · right
    cases steps with
    | zero => simp [merge?, finished] at run
    | succ fewer =>
      simp only [merge?, if_neg finished] at run
      obtain ⟨head, next, run⟩ := Option.bind_eq_some_iff.mp run
      obtain ⟨rest, more, same⟩ := Option.bind_eq_some_iff.mp run
      exact ⟨fewer, head, rest, rfl, next, more, (Option.some.inj same).symm⟩

theorem sublist_of_merge? {steps : Nat} {lists : List (List String)} {merged : List String}
    (run : merge? steps lists = some merged) : ∀ list ∈ lists, list.Sublist merged := by
  induction steps generalizing lists merged with
  | zero =>
    intro list mem
    obtain ⟨_, finished⟩ | ⟨_, _, _, impossible, _⟩ := merge?_cases run
    · rw [finished list mem]
      exact List.nil_sublist _
    · contradiction
  | succ steps ih =>
    intro list mem
    obtain ⟨_, finished⟩ | ⟨fewer, head, rest, count, _, more, rfl⟩ := merge?_cases run
    · rw [finished list mem]
      exact List.nil_sublist _
    · obtain rfl := Nat.succ.inj count
      exact sublist_of_dropHead (ih more _ (List.mem_map_of_mem mem))

theorem nodup_of_merge? {steps : Nat} {lists : List (List String)} {merged : List String}
    (run : merge? steps lists = some merged) : merged.Nodup := by
  induction steps generalizing lists merged with
  | zero =>
    obtain ⟨rfl, _⟩ | ⟨_, _, _, impossible, _⟩ := merge?_cases run
    · exact List.nodup_nil
    · contradiction
  | succ steps ih =>
    obtain ⟨rfl, _⟩ | ⟨fewer, head, rest, count, next, more, rfl⟩ := merge?_cases run
    · exact List.nodup_nil
    · obtain rfl := Nat.succ.inj count
      refine List.nodup_cons.mpr ⟨?_, ih more⟩
      intro again
      obtain ⟨dropped, mem, within⟩ := List.mem_flatten.mp (mem_of_merge? more head again)
      obtain ⟨list, listed, rfl⟩ := List.mem_map.mp mem
      exact notMem_dropHead (nextHead?_outside next list listed) within

theorem length_dropHead_le (head : String) (list : List String) :
    (dropHead head list).length ≤ list.length :=
  (dropHead_sublist head list).length_le

theorem nameCount_dropHead_lt {lists : List (List String)} {head : String}
    (next : nextHead? lists = some head) :
    nameCount (lists.map (dropHead head)) < nameCount lists := by
  obtain ⟨tail, mem⟩ := nextHead?_first next
  obtain ⟨before, after, rfl⟩ := List.append_of_mem mem
  have fewer (part : List (List String)) : nameCount (part.map (dropHead head)) ≤ nameCount part := by
    induction part with
    | nil => exact Nat.le_refl _
    | cons list part ih =>
      have shorter := length_dropHead_le head list
      simp only [nameCount, List.map_cons, List.flatten_cons, List.length_append] at ih ⊢
      omega
  have first := fewer before
  have last := fewer after
  simp only [nameCount, List.map_append, List.map_cons, List.flatten_append, List.flatten_cons,
    List.length_append, dropHead, if_pos, List.length_cons] at first last ⊢
  omega

theorem finished_of_nameCount {lists : List (List String)} (none_left : nameCount lists = 0) :
    lists.all List.isEmpty = true := by
  have nothing := List.eq_nil_of_length_eq_zero none_left
  rw [List.flatten_eq_nil_iff] at nothing
  simpa using nothing

theorem merge?_finished {lists : List (List String)} (finished : lists.all List.isEmpty = true)
    (steps : Nat) : merge? steps lists = some [] := by
  cases steps <;> simp [merge?, finished]

theorem merge?_enough {steps steps' : Nat} {lists : List (List String)}
    (enough : nameCount lists ≤ steps) (enough' : nameCount lists ≤ steps') :
    merge? steps lists = merge? steps' lists := by
  induction steps generalizing steps' lists with
  | zero =>
    have finished := finished_of_nameCount (Nat.le_zero.mp enough)
    rw [merge?_finished finished, merge?_finished finished]
  | succ steps ih =>
    by_cases finished : lists.all List.isEmpty = true
    · rw [merge?_finished finished, merge?_finished finished]
    · cases steps' with
      | zero => exact absurd (finished_of_nameCount (Nat.le_zero.mp enough')) finished
      | succ steps' =>
        simp only [merge?, if_neg finished]
        cases next : nextHead? lists with
        | none => rfl
        | some head =>
          have fewer := nameCount_dropHead_lt next
          have same : merge? steps (lists.map (dropHead head)) =
              merge? steps' (lists.map (dropHead head)) := ih (by omega) (by omega)
          simp only [Option.bind_eq_bind, Option.bind_some, same]

theorem exists_least {below : String → String → Prop} (order : IsStrictOrder String below)
    {heads : List String} (some_head : heads ≠ []) :
    ∃ least ∈ heads, ∀ head ∈ heads, ¬ below head least := by
  induction heads with
  | nil => exact absurd rfl some_head
  | cons first heads ih =>
    by_cases single : heads = []
    · subst single
      refine ⟨first, List.mem_cons_self, fun head mem => ?_⟩
      rw [List.mem_singleton.mp mem]
      exact order.irrefl first
    · obtain ⟨least, mem, lowest⟩ := ih single
      by_cases lower : below first least
      · refine ⟨first, List.mem_cons_self, fun head mem => ?_⟩
        rcases List.mem_cons.mp mem with rfl | mem
        · exact order.irrefl head
        · exact fun under => lowest head mem (order.trans _ _ _ under lower)
      · refine ⟨least, List.mem_cons_of_mem first mem, fun head mem => ?_⟩
        rcases List.mem_cons.mp mem with rfl | mem
        · exact lower
        · exact lowest head mem

theorem heads_nonempty {lists : List (List String)} (unfinished : ¬ lists.all List.isEmpty = true) :
    lists.filterMap List.head? ≠ [] := by
  intro nothing
  rw [List.filterMap_eq_nil_iff] at nothing
  refine unfinished (List.all_eq_true.mpr fun list mem => ?_)
  simpa using nothing list mem

/-- The least of the heads is in no tail, so a merge never stops early. -/
theorem exists_nextHead? {below : String → String → Prop} (order : IsStrictOrder String below)
    {lists : List (List String)} (sorted : ∀ list ∈ lists, list.Pairwise below)
    (unfinished : ¬ lists.all List.isEmpty = true) : ∃ head, nextHead? lists = some head := by
  obtain ⟨least, mem, lowest⟩ := exists_least order (heads_nonempty unfinished)
  have outside : ∀ list ∈ lists, inTail least list = false := by
    intro list listed
    cases list with
    | nil => rfl
    | cons head tail =>
      have first : head ∈ lists.filterMap List.head? := List.mem_filterMap.mpr ⟨_, listed, rfl⟩
      have absent : least ∉ tail := fun within =>
        lowest head first ((List.pairwise_cons.mp (sorted _ listed)).1 least within)
      simpa [inTail] using absent
  refine Option.isSome_iff_exists.mp (List.find?_isSome.mpr ⟨least, mem, ?_⟩)
  rw [Bool.not_eq_true', List.any_eq_false]
  exact fun list listed => Bool.eq_false_iff.mp (outside list listed)

theorem exists_merge? {below : String → String → Prop} (order : IsStrictOrder String below)
    {steps : Nat} {lists : List (List String)} (sorted : ∀ list ∈ lists, list.Pairwise below)
    (enough : nameCount lists ≤ steps) : ∃ merged, merge? steps lists = some merged := by
  induction steps generalizing lists with
  | zero => exact ⟨[], merge?_finished (finished_of_nameCount (Nat.le_zero.mp enough)) 0⟩
  | succ steps ih =>
    by_cases finished : lists.all List.isEmpty = true
    · exact ⟨[], merge?_finished finished _⟩
    · obtain ⟨head, next⟩ := exists_nextHead? order sorted finished
      have fewer := nameCount_dropHead_lt next
      have kept : ∀ list ∈ lists.map (dropHead head), list.Pairwise below := by
        intro dropped mem
        obtain ⟨list, listed, rfl⟩ := List.mem_map.mp mem
        exact (sorted list listed).sublist (dropHead_sublist head list)
      obtain ⟨rest, more⟩ := ih kept (by omega)
      exact ⟨head :: rest, by simp [merge?, finished, next, more]⟩

/-- The order in which names stand in a list. Those that are not in it come last, in order of their
letters. -/
def Before (list : List String) (first second : String) : Prop :=
  list.idxOf first < list.idxOf second ∨ list.idxOf first = list.idxOf second ∧ first < second

theorem before_total (list : List String) : IsStrictTotalOrder String (Before list) where
  irrefl name before := by
    rcases before with lower | ⟨_, lower⟩
    · exact Nat.lt_irrefl _ lower
    · exact lt_irrefl name lower
  trans first second third before after := by
    rcases before with lower | ⟨same, lower⟩
    · rcases after with more | ⟨level, _⟩
      · exact Or.inl (Nat.lt_trans lower more)
      · exact Or.inl (level ▸ lower)
    · rcases after with more | ⟨level, more⟩
      · exact Or.inl (same ▸ more)
      · exact Or.inr ⟨same.trans level, lt_trans lower more⟩
  trichotomous first second notBefore notAfter := by
    simp only [Before, not_or, not_and] at notBefore notAfter
    have level : list.idxOf first = list.idxOf second :=
      Nat.le_antisymm (Nat.le_of_not_lt notAfter.1) (Nat.le_of_not_lt notBefore.1)
    exact le_antisymm (not_lt.mp (notAfter.2 level.symm)) (not_lt.mp (notBefore.2 level))

theorem pairwise_before {list : List String} (distinct : list.Nodup) :
    list.Pairwise (Before list) := by
  rw [List.pairwise_iff_getElem]
  intro i j inside inside' order
  left
  rw [distinct.idxOf_getElem i inside, distinct.idxOf_getElem j inside']
  exact order

theorem merge?_isSome_iff (lists : List (List String)) :
    (∃ merged, merge? (nameCount lists) lists = some merged) ↔
      ∃ below : String → String → Prop, IsStrictTotalOrder String below ∧
        ∀ list ∈ lists, list.Pairwise below := by
  constructor
  · rintro ⟨merged, run⟩
    refine ⟨Before merged, before_total merged, fun list mem => ?_⟩
    exact (pairwise_before (nodup_of_merge? run)).sublist (sublist_of_merge? run list mem)
  · rintro ⟨below, total, sorted⟩
    exact exists_merge? total.toIsStrictOrder sorted (Nat.le_refl _)

end ContractRegistry.Source.Inheritance
