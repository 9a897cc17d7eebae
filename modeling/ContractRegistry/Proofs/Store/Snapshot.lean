import ContractRegistry.Proofs.Json.Record
import ContractRegistry.Proofs.Json.Settled
import ContractRegistry.Proofs.Text.Utf8
import ContractRegistry.Store.Snapshot

/-!
Each record of a snapshot is read back from its shape. A contract is read back unless its interface
nests deeper than the place of an interface in a snapshot leaves room for.
-/
namespace ContractRegistry

open Json (Value Tree escaped piecesOf)

structure Assignment.Fits (a : Assignment) : Prop where
  slot : a.slot < Numeral.limit64
  offset : a.offset < 256
  size : a.size < Numeral.limit64

structure Layout.Fits (l : Layout) : Prop where
  assignments : ∀ a ∈ l.assignments, a.Fits
  slotsUsed : l.slotsUsed < Numeral.limit64

structure Contract.Fits (c : Contract) : Prop where
  layout : c.layout.Fits
  events : ∀ id ∈ c.events, id < Numeral.limit64

theorem Address.ofHex?_hex (a : Address) : Address.ofHex? a.hex.toList = some a := by
  have count : a.digits.length = Address.digitCount := Numeral.length_hexDigits _ _
  have digits : Numeral.ofDigits? 16 Numeral.hexDigit? a.digits = some a.toNat := by
    have small : a.toNat < Nat.pow 16 Address.digitCount := a.isLt
    rw [Numeral.ofDigits?_eq_extend _ _ _ (by rw [count]; decide), Address.digits,
      Numeral.extend_hexDigits, Nat.mod_eq_of_lt small, Nat.zero_mul, Nat.zero_add]
  have marked : a.hex.toList = '0' :: 'x' :: a.digits := by
    simp [Address.hex]
  have passed : guard (a.digits.length = Address.digitCount) = some () := if_pos count
  rw [Address.ofHex?, marked]
  change (do guard (a.digits.length = Address.digitCount)
             let n ← Numeral.ofDigits? 16 Numeral.hexDigit? a.digits
             some (BitVec.ofNat 160 n)) = some a
  rw [passed, digits]
  exact congrArg some (BitVec.ofNat_toNat 160 a)

theorem Role.ofName?_name (r : Role) : Role.ofName? r.name = some r := by
  cases r <;> rfl

namespace Snapshot

theorem plainRecord?_object (fields : List (String × Value))
    (distinct : (fields.map Prod.fst).Nodup) :
    plainRecord? (fields.map Prod.fst) (Value.object fields).tree =
      some (fields.map fun f => some f.2.tree) := by
  have only : ∀ f ∈ fields,
      Tree.onlyMember? (fields.map fun f => (f.1, f.2.tree)) [f.1] = some (some f.2.tree) := by
    intro f member
    have same : ((fields.map fun f => (f.1, f.2.tree)).map Prod.fst).Nodup := by
      simpa [Function.comp_def] using distinct
    have alone := Json.filter_key (fields.map fun f => (f.1, f.2.tree)) same (f.1, f.2.tree)
      (List.mem_map_of_mem member)
    rw [Tree.onlyMember?, alone]
  rw [plainRecord?, Value.tree, Tree.record?, Json.named?_memberTrees, List.map_map]
  exact Json.mapM_map _ _ _ fields only

theorem natural?_nat (bound n : Nat) (small : n < bound) (fits : n < Numeral.limit64) :
    (Value.nat n).tree.natural? bound = some n := by
  have least : -(Json.signBit : Int) ≤ n := by omega
  have number := Json.number?_ofInt n least (by omega)
  simp [Value.nat, Value.tree, Tree.natural?, number, small]

theorem stringText?_string (text : String) : (Value.string text).tree.stringText? = some text := by
  rw [Value.tree, Tree.stringText?, Json.contentText?_escaped]

theorem address?_hex (a : Address) : address? (Value.string a.hex).tree = some a := by
  simp [Value.tree, address?, Json.text?_escaped, Address.ofHex?_hex]

theorem role?_name (r : Role) : role? (Value.string r.name).tree = some r := by
  simp [Value.tree, role?, Json.contentText?_escaped, Role.ofName?_name]

theorem number?_nat (n : Nat) (fits : n < Numeral.limit64) : number? (Value.nat n).tree = some n :=
  natural?_nat Numeral.limit64 n fits fits

theorem byte?_nat (n : Nat) (fits : n < 256) : byte? (Value.nat n).tree = some n :=
  natural?_nat 256 n fits (by simp only [Numeral.limit64]; omega)

theorem numbers?_numbers (ns : List Nat) (fits : ∀ n ∈ ns, n < Numeral.limit64) :
    numbers? (numbers ns).tree = some ns := by
  have each := Json.mapM_map (fun n => (Value.nat n).tree) number? id ns fun n member =>
    number?_nat n (fits n member)
  simpa [numbers, numbers?, Value.tree, Value.trees_eq_map, Tree.items?, Function.comp_def] using each

theorem assignment?_assignment (a : Assignment) (fits : a.Fits) :
    assignment? (assignment a).tree = some a := by
  have record := plainRecord?_object [("name", .string a.name), ("slot", .nat a.slot),
    ("offset", .nat a.offset), ("size", .nat a.size), ("signature", .string a.signature),
    ("role", .string a.role.name)] (by simp)
  simp only [List.map_cons, List.map_nil] at record
  rw [assignment?, assignment, record]
  simp [required, stringText?_string, number?_nat, byte?_nat, role?_name, fits.slot, fits.offset,
    fits.size]

theorem layout?_layout (l : Layout) (fits : l.Fits) : layout? (layout l).tree = some l := by
  have record := plainRecord?_object [("assignments", .array (l.assignments.map assignment)),
    ("slots_used", .nat l.slotsUsed)] (by simp)
  simp only [List.map_cons, List.map_nil] at record
  have each := Json.mapM_map (fun a => (assignment a).tree) assignment? id l.assignments fun a member =>
    assignment?_assignment a (fits.assignments a member)
  have assignments : assignments? (Value.array (l.assignments.map assignment)).tree =
      some l.assignments := by
    simpa [assignments?, Value.tree, Value.trees_eq_map, Tree.items?, Function.comp_def] using each
  rw [layout?, layout, record]
  simp [required, assignments, number?_nat, fits.slotsUsed]

theorem contract?_contract (depth : Nat) (c : Contract) (settled : c.interface.Settled)
    (fits : c.Fits) :
    contract? depth (contract c).tree = if c.interface.nest ≤ depth then some c else none := by
  have record := plainRecord?_object [("address", .string c.address.hex), ("name", .string c.name),
    ("abi", c.interface), ("layout", layout c.layout), ("event_ids", numbers c.events)] (by simp)
  simp only [List.map_cons, List.map_nil] at record
  rw [contract?, contract, record]
  by_cases shallow : c.interface.nest ≤ depth <;>
    simp [required, address?_hex, stringText?_string, Json.value?_tree settled, shallow,
      layout?_layout c.layout fits.layout, numbers?_numbers c.events fits.events]

theorem numberName?_toString (id : Nat) (fits : id < Numeral.limit64) :
    numberName? (escaped (toString id)) = some id := by
  have text := Json.escaped_toString id
  have read := Json.numeral_toString id [] trivial
  have number := number?_nat id fits
  rw [List.append_nil] at read
  rw [numberName?, text, read]
  exact number

theorem object_tree {α : Type} (entries : List α) (name : α → String) (value : α → Value) :
    (Value.object (entries.map fun e => (name e, value e))).tree =
      .object (entries.map fun e => (escaped (name e), (value e).tree)) := by
  rw [Value.tree, Value.memberTrees_eq_map, List.map_map]
  rfl

theorem events?_events (events : List (String × Nat)) (ordered : Ordered events)
    (fits : ∀ e ∈ events, e.2 < Numeral.limit64) :
    events? (Value.object (events.map fun e => (e.1, .nat e.2))).tree = some events := by
  have each := Json.mapM_map (fun e : String × Nat => (escaped e.1, (Value.nat e.2).tree))
    (fun m => do some (← Tree.contentText? m.1, ← number? m.2)) id events fun e member => by
      simp [Json.contentText?_escaped, number?_nat, fits e member]
  rw [events?, object_tree, Tree.members?]
  simp only [Option.bind_eq_bind, Option.bind_some] at each ⊢
  rw [each, Option.bind_some, List.map_id, Json.sortMembers_of_ordered ordered]

theorem contracts?_contracts (depth : Nat) (contracts : List (Nat × Contract))
    (ordered : Ordered contracts) (ids : ∀ e ∈ contracts, e.1 < Numeral.limit64)
    (settled : ∀ e ∈ contracts, e.2.interface.Settled) (fits : ∀ e ∈ contracts, e.2.Fits) :
    contracts? depth (Value.object (contracts.map fun e => (toString e.1, contract e.2))).tree =
      if ∀ e ∈ contracts, e.2.interface.nest ≤ depth then some contracts else none := by
  have each := Json.mapM_map_ite (P := fun e : Nat × Contract => e.2.interface.nest ≤ depth)
    (fun e => (escaped (toString e.1), (contract e.2).tree))
    (fun m => do some (← numberName? m.1, ← contract? depth m.2)) contracts
    fun e member => by
      have read := contract?_contract depth e.2 (settled e member) (fits e member)
      simp only [numberName?_toString e.1 (ids e member), read, Option.bind_eq_bind,
        Option.bind_some]
      by_cases shallow : e.2.interface.nest ≤ depth <;> simp [shallow]
  have placed : contracts.foldl (fun placed e => Store.place e.1 e.2 placed) [] = contracts := by
    simp only [Store.place_eq_insertEntry]
    exact foldl_insertEntry ordered
  rw [contracts?, object_tree, Tree.members?]
  simp only [Option.bind_eq_bind, Option.bind_some] at each ⊢
  rw [each]
  by_cases shallow : ∀ e ∈ contracts, e.2.interface.nest ≤ depth
  · rw [if_pos shallow, Option.bind_some, placed]
  · rw [if_neg shallow, Option.bind_none]

end Snapshot

/-- Entries are sorted, and no number exceeds the one last given, which fits its width. -/
structure Store.Numbered (s : Store) : Prop where
  lastContract : s.lastContract < Numeral.limit64
  lastEvent : s.lastEvent < Numeral.limit64
  events : Ordered s.events
  eventIds : ∀ e ∈ s.events, e.2 ≤ s.lastEvent
  contracts : Ordered s.contracts
  contractIds : ∀ e ∈ s.contracts, e.1 ≤ s.lastContract

namespace Snapshot

/-- Where an interface lies in a snapshot, this much of the limit of nesting is left for it. -/
def room : Nat :=
  Json.depthLimit - 3

theorem store?_store (s : Store) (numbered : s.Numbered)
    (settled : ∀ e ∈ s.contracts, e.2.interface.Settled) (fits : ∀ e ∈ s.contracts, e.2.Fits) :
    store? (store s).tree =
      if ∀ e ∈ s.contracts, e.2.interface.nest ≤ room then some s else none := by
  have record := plainRecord?_object [("next_contract_id", .nat s.lastContract),
    ("next_event_id", .nat s.lastEvent),
    ("events", .object (s.events.map fun e => (e.1, .nat e.2))),
    ("contracts", .object (s.contracts.map fun e => (toString e.1, contract e.2)))] (by simp)
  have events := events?_events s.events numbered.events fun e member =>
    Nat.lt_of_le_of_lt (numbered.eventIds e member) numbered.lastEvent
  have contracts := contracts?_contracts room s.contracts numbered.contracts
    (fun e member => Nat.lt_of_le_of_lt (numbered.contractIds e member) numbered.lastContract)
    settled fits
  simp only [List.map_cons, List.map_nil] at record
  rw [store?, store, record]
  simp only [Option.bind_eq_bind, Option.bind_some, required, number?_nat _ numbered.lastContract,
    number?_nat _ numbered.lastEvent, events]
  rw [← room, contracts]
  by_cases shallow : ∀ e ∈ s.contracts, e.2.interface.nest ≤ room
  · rw [if_pos shallow, if_pos shallow]
    rfl
  · rw [if_neg shallow, if_neg shallow]
    rfl

theorem whole_nat (n : Nat) : (Value.nat n).Whole :=
  .integer n

theorem whole_assignment (a : Assignment) : (assignment a).Whole := by
  refine .object _ ?_
  simp only [List.forall_mem_cons]
  exact ⟨.string _, whole_nat _, whole_nat _, whole_nat _, .string _, .string _, by simp⟩

theorem whole_layout (l : Layout) : (layout l).Whole := by
  have assignments : (Value.array (l.assignments.map assignment)).Whole := by
    refine .array _ fun v member => ?_
    obtain ⟨a, -, rfl⟩ := List.mem_map.mp member
    exact whole_assignment a
  refine .object _ ?_
  simp only [List.forall_mem_cons]
  exact ⟨assignments, whole_nat _, by simp⟩

theorem whole_contract (c : Contract) (whole : c.interface.Whole) : (contract c).Whole := by
  have events : (numbers c.events).Whole := by
    refine .array _ fun v member => ?_
    obtain ⟨n, -, rfl⟩ := List.mem_map.mp member
    exact whole_nat n
  refine .object _ ?_
  simp only [List.forall_mem_cons]
  exact ⟨.string _, .string _, whole, whole_layout _, events, by simp⟩

theorem whole_store (s : Store) (whole : ∀ e ∈ s.contracts, e.2.interface.Whole) :
    (store s).Whole := by
  have events : (Value.object (s.events.map fun e => (e.1, .nat e.2))).Whole := by
    refine .object _ fun m member => ?_
    obtain ⟨e, -, rfl⟩ := List.mem_map.mp member
    exact whole_nat _
  have contracts : (Value.object (s.contracts.map fun e => (toString e.1, contract e.2))).Whole := by
    refine .object _ fun m member => ?_
    obtain ⟨e, given, rfl⟩ := List.mem_map.mp member
    exact whole_contract e.2 (whole e given)
  refine .object _ ?_
  simp only [List.forall_mem_cons]
  exact ⟨whole_nat _, whole_nat _, events, contracts, by simp⟩

theorem ofFile_toFile (s : Store) (numbered : s.Numbered)
    (settled : ∀ e ∈ s.contracts, e.2.interface.Settled) (fits : ∀ e ∈ s.contracts, e.2.Fits) :
    ofFile (.ok (toFile s)) =
      if ∀ e ∈ s.contracts, e.2.interface.nest ≤ room then .ok s
      else .error (.snapshot Json.refusal) := by
  have whole := whole_store s fun e member => (settled e member).whole
  have pieces : Text.Utf8.pieces (toFile s) = piecesOf (store s).pretty := Text.Utf8.pieces_encode _
  rw [ofFile, pieces, decode?, Json.document?_pretty whole, Option.bind_eq_bind, Option.bind_some,
    store?_store s numbered settled fits]
  by_cases shallow : ∀ e ∈ s.contracts, e.2.interface.nest ≤ room
  · rw [if_pos shallow, if_pos shallow]
  · rw [if_neg shallow, if_neg shallow]

end Snapshot

end ContractRegistry
