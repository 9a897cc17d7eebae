import ContractRegistry.Proofs.Json.Written
import ContractRegistry.Proofs.Ordered

/-!
The values that reading gives, and how deep they nest. Read again at any limit of nesting, such a
value comes out as it was, or not at all when it nests deeper.
-/
namespace ContractRegistry.Json

open Text.Utf8 (Piece)

namespace Value

mutual

def nest : Value → Nat
  | .array items => nestItems items + 1
  | .object members => nestMembers members + 1
  | _ => 0

def nestItems : List Value → Nat
  | [] => 0
  | v :: vs => max (nest v) (nestItems vs)

def nestMembers : List (String × Value) → Nat
  | [] => 0
  | (_, v) :: ms => max (nest v) (nestMembers ms)

end

theorem nestItems_le_iff (vs : List Value) (depth : Nat) :
    nestItems vs ≤ depth ↔ ∀ v ∈ vs, v.nest ≤ depth := by
  induction vs with
  | nil => simp [nestItems]
  | cons v vs ih => rw [nestItems, Nat.max_le, ih, List.forall_mem_cons]

theorem nestMembers_le_iff (ms : List (String × Value)) (depth : Nat) :
    nestMembers ms ≤ depth ↔ ∀ m ∈ ms, m.2.nest ≤ depth := by
  induction ms with
  | nil => simp [nestMembers]
  | cons m ms ih =>
    obtain ⟨key, v⟩ := m
    rw [nestMembers, Nat.max_le, ih, List.forall_mem_cons]

/-- A value without doubles as reading gives it: integers have 64 bits, and members are sorted by
their names, each of which stands once. -/
inductive Settled : Value → Prop where
  | null : Settled .null
  | bool (truth : Bool) : Settled (.bool truth)
  | integer (n : Int) (least : -(signBit : Int) ≤ n) (most : n < ContractRegistry.Numeral.limit64) :
    Settled (.number (.integer n))
  | string (text : String) : Settled (.string text)
  | array (items : List Value) (each : ∀ v ∈ items, Settled v) : Settled (.array items)
  | object (members : List (String × Value)) (each : ∀ m ∈ members, Settled m.2)
    (ordered : Ordered members) : Settled (.object members)

theorem Settled.whole {v : Value} (settled : v.Settled) : v.Whole := by
  induction settled with
  | null => exact .null
  | bool truth => exact .bool truth
  | integer n => exact .integer n
  | string text => exact .string text
  | array items _ ih => exact .array items ih
  | object members _ _ ih => exact .object members ih

end Value

mutual

theorem value?_mono : ∀ (t : Tree) {d e : Nat} {v : Value}, d ≤ e → t.value? d = some v → t.value? e = some v
  | .null, _, _, _, _, read => read
  | .bool _, _, _, _, _, read => read
  | .number _, d, e, v, _, read => by rw [Tree.value?] at read ⊢; exact read
  | .string _, d, e, v, _, read => by rw [Tree.value?] at read ⊢; exact read
  | .array items, 0, e, v, _, read => by simp [Tree.value?] at read
  | .array items, d + 1, 0, v, le, read => absurd le (Nat.not_succ_le_zero d)
  | .array items, d + 1, e + 1, v, le, read => by
    rw [Tree.value?] at read ⊢
    obtain ⟨vs, inner, rfl⟩ := Option.map_eq_some_iff.mp read
    rw [values?_mono items (Nat.le_of_succ_le_succ le) inner, Option.map_some]
  | .object members, 0, e, v, _, read => by simp [Tree.value?] at read
  | .object members, d + 1, 0, v, le, read => absurd le (Nat.not_succ_le_zero d)
  | .object members, d + 1, e + 1, v, le, read => by
    rw [Tree.value?] at read ⊢
    obtain ⟨ms, inner, rfl⟩ := Option.map_eq_some_iff.mp read
    rw [memberValues?_mono members (Nat.le_of_succ_le_succ le) inner, Option.map_some]

theorem values?_mono : ∀ (ts : List Tree) {d e : Nat} {vs : List Value}, d ≤ e →
    Tree.values? d ts = some vs → Tree.values? e ts = some vs
  | [], _, _, _, _, read => read
  | t :: ts, d, e, vs, le, read => by
    obtain ⟨v, first, read⟩ := Option.bind_eq_some_iff.mp read
    obtain ⟨others, rest, read⟩ := Option.bind_eq_some_iff.mp read
    rw [Tree.values?, value?_mono t le first, values?_mono ts le rest]
    exact read

theorem memberValues?_mono : ∀ (ts : List (List Piece × Tree)) {d e : Nat} {ms : List (String × Value)},
    d ≤ e → Tree.memberValues? d ts = some ms → Tree.memberValues? e ts = some ms
  | [], _, _, _, _, read => read
  | (key, t) :: ts, d, e, ms, le, read => by
    obtain ⟨name, told, read⟩ := Option.bind_eq_some_iff.mp read
    obtain ⟨v, first, read⟩ := Option.bind_eq_some_iff.mp read
    obtain ⟨others, rest, read⟩ := Option.bind_eq_some_iff.mp read
    rw [Tree.memberValues?, told, value?_mono t le first, memberValues?_mono ts le rest]
    exact read

end

theorem value?_unique {t : Tree} {d e : Nat} {v w : Value} (read : t.value? d = some v)
    (again : t.value? e = some w) : v = w := by
  rcases Nat.le_total d e with le | le
  · exact Option.some.inj ((value?_mono t le read).symm.trans again)
  · exact Option.some.inj (read.symm.trans (value?_mono t le again))

theorem sortMembers_of_ordered {α : Type} {members : List (String × α)} (ordered : Ordered members) :
    sortMembers members = members := by
  rw [sortMembers_eq_foldl, foldl_insertEntry ordered]

theorem values?_trees (depth : Nat) (vs : List Value)
    (each : ∀ v ∈ vs, v.tree.value? depth = if v.nest ≤ depth then some v else none) :
    Tree.values? depth (Value.trees vs) = if Value.nestItems vs ≤ depth then some vs else none := by
  induction vs with
  | nil => simp [Value.trees, Tree.values?, Value.nestItems]
  | cons v vs ih =>
    have first := each v List.mem_cons_self
    have others := ih fun w member => each w (List.mem_cons_of_mem v member)
    simp only [Value.trees, Tree.values?, first, others, Value.nestItems, Nat.max_le]
    by_cases shallow : v.nest ≤ depth <;> by_cases rest : Value.nestItems vs ≤ depth <;>
      simp [shallow, rest]

theorem memberValues?_memberTrees (depth : Nat) (ms : List (String × Value))
    (each : ∀ m ∈ ms, m.2.tree.value? depth = if m.2.nest ≤ depth then some m.2 else none) :
    Tree.memberValues? depth (Value.memberTrees ms) =
      if Value.nestMembers ms ≤ depth then some ms else none := by
  induction ms with
  | nil => simp [Value.memberTrees, Tree.memberValues?, Value.nestMembers]
  | cons m ms ih =>
    have first := each m List.mem_cons_self
    have others := ih fun e member => each e (List.mem_cons_of_mem m member)
    obtain ⟨key, v⟩ := m
    simp only [Value.memberTrees, Tree.memberValues?, contentText?_escaped, first, others,
      Value.nestMembers, Nat.max_le]
    by_cases shallow : v.nest ≤ depth <;> by_cases rest : Value.nestMembers ms ≤ depth <;>
      simp [shallow, rest]

theorem value?_tree {v : Value} (settled : v.Settled) (depth : Nat) :
    v.tree.value? depth = if v.nest ≤ depth then some v else none := by
  induction settled generalizing depth with
  | null => simp [Value.tree, Tree.value?, Value.nest]
  | bool truth => simp [Value.tree, Tree.value?, Value.nest]
  | integer n least most => simp [Value.tree, Tree.value?, Value.nest, number?_ofInt n least most]
  | string text => simp [Value.tree, Tree.value?, Value.nest, contentText?_escaped]
  | array items _ ih =>
    cases depth with
    | zero => simp [Value.tree, Tree.value?, Value.nest]
    | succ depth =>
      have inner := values?_trees depth items fun v member => ih v member depth
      rw [Value.tree, Tree.value?, inner, Value.nest]
      by_cases shallow : Value.nestItems items ≤ depth <;> simp [shallow]
  | object members _ ordered ih =>
    cases depth with
    | zero => simp [Value.tree, Tree.value?, Value.nest]
    | succ depth =>
      have inner := memberValues?_memberTrees depth members fun m member => ih m member depth
      rw [Value.tree, Tree.value?, inner, Value.nest]
      by_cases shallow : Value.nestMembers members ≤ depth <;>
        simp [shallow, sortMembers_of_ordered ordered]

theorem ofText?_pretty {v : Value} (settled : v.Settled) (nested : v.nest ≤ depthLimit) :
    Value.ofText? v.pretty = some v := by
  rw [Value.ofText?, document?_pretty settled.whole]
  simp [value?_tree settled, nested]

theorem absorb_lt (ds : List Nat) (value : Nat) (small : value < ContractRegistry.Numeral.limit64) :
    (Numeral.absorb value ds).1 < ContractRegistry.Numeral.limit64 := by
  induction ds generalizing value with
  | nil => exact small
  | cons d ds ih =>
    rw [Numeral.absorb]
    split
    · next below => exact ih _ below
    · exact small

theorem range_of_number? {numeral : Numeral} {n : Int} (read : numeral.number? = some (.integer n)) :
    -(signBit : Int) ≤ n ∧ n < ContractRegistry.Numeral.limit64 := by
  have small := absorb_lt numeral.whole 0 (by decide)
  have real (same : numeral.real? = some (.integer n)) : False := by
    obtain ⟨f, -, double⟩ := Option.bind_eq_some_iff.mp same
    simp at double
  simp only [Numeral.number?] at read
  split at read
  · split at read
    · split at read
      · next size =>
        obtain rfl : -((Numeral.absorb 0 numeral.whole).1 : Int) = n := by simpa using read
        simp only [ContractRegistry.Numeral.limit64]
        omega
      · exact (real read).elim
    · obtain rfl : ((Numeral.absorb 0 numeral.whole).1 : Int) = n := by simpa using read
      simp only [signBit]
      omega
  · exact (real read).elim

/-- What is read without doubles is settled and within the limit. -/
def Kept (depth : Nat) (v : Value) : Prop :=
  v.Whole → v.Settled ∧ v.nest ≤ depth

theorem kept_mono {d e : Nat} {v : Value} (le : d ≤ e) (kept : Kept d v) : Kept e v := by
  intro whole
  obtain ⟨settled, nested⟩ := kept whole
  exact ⟨settled, Nat.le_trans nested le⟩

theorem kept_null (depth : Nat) : Kept depth .null :=
  fun _ => ⟨.null, Nat.zero_le depth⟩

mutual

theorem kept_of_value? : ∀ (t : Tree) (depth : Nat) (v : Value), t.value? depth = some v → Kept depth v
  | .null, depth, v, read => by
    obtain rfl : Value.null = v := by simpa [Tree.value?] using read
    exact fun _ => ⟨.null, Nat.zero_le depth⟩
  | .bool truth, depth, v, read => by
    obtain rfl : Value.bool truth = v := by simpa [Tree.value?] using read
    exact fun _ => ⟨.bool truth, Nat.zero_le depth⟩
  | .number numeral, depth, v, read => by
    rw [Tree.value?] at read
    obtain ⟨n, number, rfl⟩ := Option.map_eq_some_iff.mp read
    intro whole
    cases whole with
    | integer n =>
      obtain ⟨least, most⟩ := range_of_number? number
      exact ⟨.integer n least most, Nat.zero_le depth⟩
  | .string content, depth, v, read => by
    rw [Tree.value?] at read
    obtain ⟨text, -, rfl⟩ := Option.map_eq_some_iff.mp read
    exact fun _ => ⟨.string text, Nat.zero_le depth⟩
  | .array items, 0, v, read => by
    simp [Tree.value?] at read
  | .array items, depth + 1, v, read => by
    rw [Tree.value?] at read
    obtain ⟨vs, inner, rfl⟩ := Option.map_eq_some_iff.mp read
    have kept := kept_of_values? items depth vs inner
    intro whole
    cases whole with
    | array vs each =>
      have deep := (Value.nestItems_le_iff vs depth).mpr fun v member =>
        (kept v member (each v member)).2
      exact ⟨.array vs fun v member => (kept v member (each v member)).1, Nat.succ_le_succ deep⟩
  | .object members, 0, v, read => by
    simp [Tree.value?] at read
  | .object members, depth + 1, v, read => by
    rw [Tree.value?] at read
    obtain ⟨ms, inner, rfl⟩ := Option.map_eq_some_iff.mp read
    have kept := kept_of_memberValues? members depth ms inner
    intro whole
    cases whole with
    | object _ each =>
      -- A member that is overwritten by a later one of its name may be anything.
      have each_kept : ∀ m ∈ sortMembers ms, m.2.Settled ∧ m.2.nest ≤ depth := by
        intro m member
        have given := mem_of_mem_foldl_insertEntry (sortMembers_eq_foldl ms ▸ member)
        exact kept m given (each m member)
      have ordered : Ordered (sortMembers ms) := by
        rw [sortMembers_eq_foldl]
        exact ordered_foldl_insertEntry ms
      have deep := (Value.nestMembers_le_iff _ depth).mpr fun m member => (each_kept m member).2
      exact ⟨.object _ (fun m member => (each_kept m member).1) ordered, Nat.succ_le_succ deep⟩

theorem kept_of_values? : ∀ (ts : List Tree) (depth : Nat) (vs : List Value),
    Tree.values? depth ts = some vs → ∀ v ∈ vs, Kept depth v
  | [], depth, vs, read => by
    obtain rfl : [] = vs := by simpa [Tree.values?] using read
    exact fun v member => absurd member List.not_mem_nil
  | t :: ts, depth, vs, read => by
    rw [Tree.values?] at read
    obtain ⟨v, first, read⟩ := Option.bind_eq_some_iff.mp read
    obtain ⟨others, rest, same⟩ := Option.bind_eq_some_iff.mp read
    obtain rfl : v :: others = vs := by simpa using same
    intro w member
    rcases List.mem_cons.mp member with rfl | later
    · exact kept_of_value? t depth w first
    · exact kept_of_values? ts depth others rest w later

theorem kept_of_memberValues? : ∀ (ts : List (List Piece × Tree)) (depth : Nat)
    (ms : List (String × Value)),
    Tree.memberValues? depth ts = some ms → ∀ m ∈ ms, Kept depth m.2
  | [], depth, ms, read => by
    obtain rfl : [] = ms := by simpa [Tree.memberValues?] using read
    exact fun v member => absurd member List.not_mem_nil
  | (key, t) :: ts, depth, ms, read => by
    rw [Tree.memberValues?] at read
    obtain ⟨name, -, read⟩ := Option.bind_eq_some_iff.mp read
    obtain ⟨v, first, read⟩ := Option.bind_eq_some_iff.mp read
    obtain ⟨others, rest, same⟩ := Option.bind_eq_some_iff.mp read
    obtain rfl : (name, v) :: others = ms := by simpa using same
    intro m member
    rcases List.mem_cons.mp member with rfl | later
    · exact kept_of_value? t depth v first
    · exact kept_of_memberValues? ts depth others rest m later

end

end ContractRegistry.Json
