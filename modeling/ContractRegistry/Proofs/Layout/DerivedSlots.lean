import ContractRegistry.Layout.ChildSlot
import ContractRegistry.Proofs.Word
import Mathlib.Data.Set.BooleanAlgebra
import Mathlib.Order.CompletePartialOrder

/-!
Slots that are derived from base slots.

The elements of a sequence take blocks of slots, one behind the other, from the data slot on. Slot numbers
wrap around, so that blocks stay apart exactly as long as all of them together are no more than the slots
there are.

A data slot and the slot of an entry are hashes of bytes that tell what they are derived from. So two of
them are the same slot only where two different messages have one hash.
-/
namespace ContractRegistry

namespace Keccak

theorem length_bytesOf (w : UInt64) : (bytesOf w).length = 8 := by
  simp [bytesOf]

theorem length_hash (message : List UInt8) : (hash message).length = 32 := by
  simp only [hash, List.length_flatMap, length_bytesOf]
  rfl

def Collision (m n : List UInt8) : Prop :=
  m ≠ n ∧ hash m = hash n

end Keccak

namespace ChildSlot

def slotsFrom (start : Word) (count : Nat) : Set Word :=
  {slot | ∃ k < count, slot = start + BitVec.ofNat 256 k}

def elementBlock (base index : Word) (each : Nat) : Set Word :=
  slotsFrom (arrayElement base index each) each

/-- The block of an element has the slots whose distance from the data slot begins with the number of the
element, counted in blocks. -/
theorem mem_elementBlock_iff {base index slot : Word} {each : Nat} :
    slot ∈ elementBlock base index each ↔
      ∃ distance, index.toNat * each ≤ distance ∧ distance < (index.toNat + 1) * each ∧
        slot = arrayData base + BitVec.ofNat 256 distance := by
  have start : arrayElement base index each =
      arrayData base + BitVec.ofNat 256 (index.toNat * each) := by
    rw [arrayElement, BitVec.ofNat_mul, BitVec.ofNat_toNat, BitVec.setWidth_eq]
  have step : (index.toNat + 1) * each = index.toNat * each + each := Nat.succ_mul _ _
  constructor
  · rintro ⟨k, small, rfl⟩
    refine ⟨index.toNat * each + k, by omega, by omega, ?_⟩
    rw [start, BitVec.ofNat_add, BitVec.add_assoc]
  · rintro ⟨distance, least, most, rfl⟩
    refine ⟨distance - index.toNat * each, by omega, ?_⟩
    rw [start, BitVec.add_assoc, ← BitVec.ofNat_add, Nat.add_sub_cancel' least]

theorem distance_eq {base : Word} {d e : Nat} (small : d < 2 ^ 256) (small' : e < 2 ^ 256)
    (same : arrayData base + BitVec.ofNat 256 d = arrayData base + BitVec.ofNat 256 e) : d = e := by
  have offsets := congrArg BitVec.toNat ((BitVec.add_right_inj _).mp same)
  rwa [BitVec.toNat_ofNat, BitVec.toNat_ofNat, Nat.mod_eq_of_lt small, Nat.mod_eq_of_lt small'] at offsets

theorem disjoint_of_room {base i j : Word} {each : Nat} (before : i < j)
    (room : (j.toNat + 1) * each ≤ 2 ^ 256) :
    Disjoint (elementBlock base i each) (elementBlock base j each) := by
  have next : (i.toNat + 1) * each ≤ j.toNat * each := Nat.mul_le_mul_right each before
  rw [Set.disjoint_left]
  intro slot first second
  obtain ⟨d, -, most, rfl⟩ := mem_elementBlock_iff.mp first
  obtain ⟨e, least, most', same⟩ := mem_elementBlock_iff.mp second
  have shared : d = e := distance_eq (by omega) (by omega) same
  omega

/-- Where the blocks up to one are more slots than there are, one of them comes round to the first. -/
theorem overlap_of_no_room {base last : Word} {each : Nat} (some_slots : 1 ≤ each)
    (bounded : each ≤ 2 ^ 256) (more : 2 ^ 256 < (last.toNat + 1) * each) :
    ∃ j : Word, 0 < j ∧ j ≤ last ∧
      ¬ Disjoint (elementBlock base 0 each) (elementBlock base j each) := by
  have reached : 2 ^ 256 / each ≤ last.toNat :=
    Nat.le_of_lt_succ ((Nat.div_lt_iff_lt_mul some_slots).mpr more)
  have positive : 0 < 2 ^ 256 / each := Nat.div_pos bounded some_slots
  have small : 2 ^ 256 / each < 2 ^ 256 := Nat.lt_of_le_of_lt reached last.isLt
  have number : (BitVec.ofNat 256 (2 ^ 256 / each)).toNat = 2 ^ 256 / each := Nat.mod_eq_of_lt small
  refine ⟨BitVec.ofNat 256 (2 ^ 256 / each), ?_, ?_, ?_⟩
  · rw [BitVec.lt_def, number]
    exact positive
  · rw [BitVec.le_def, number]
    exact reached
  · rw [Set.not_disjoint_iff]
    refine ⟨arrayData base, mem_elementBlock_iff.mpr ⟨0, ?_, ?_, ?_⟩, mem_elementBlock_iff.mpr ⟨2 ^ 256, ?_, ?_, ?_⟩⟩
    · simp
    · simpa using Nat.pos_of_ne_zero (Nat.ne_of_gt some_slots)
    · simp
    · rw [number]
      exact Nat.div_mul_le_self _ _
    · rw [number, Nat.mul_comm]
      exact Nat.lt_mul_div_succ _ some_slots
    · have around : BitVec.ofNat 256 (2 ^ 256) = 0#256 := rfl
      rw [around, BitVec.add_zero]

theorem element_blocks_apart (base : Word) (each : Nat) :
    (∀ i j : Word, i < j → (j.toNat + 1) * each ≤ 2 ^ 256 →
      Disjoint (elementBlock base i each) (elementBlock base j each)) ∧
    (∀ i : Word, arrayElement base (i + 1) each = arrayElement base i each + BitVec.ofNat 256 each) ∧
    (1 ≤ each → each ≤ 2 ^ 256 → ∀ last : Word,
      (∀ i j : Word, i < j → j ≤ last → Disjoint (elementBlock base i each) (elementBlock base j each)) ↔
        (last.toNat + 1) * each ≤ 2 ^ 256) := by
  refine ⟨fun i j before room => disjoint_of_room before room, fun i => ?_, fun some_slots bounded last => ?_⟩
  · have one : (1 : Word) * BitVec.ofNat 256 each = BitVec.ofNat 256 each := BitVec.one_mul _
    rw [arrayElement, arrayElement, BitVec.add_mul, one, BitVec.add_assoc]
  · constructor
    · intro apart
      by_contra full
      obtain ⟨j, after, reached, overlap⟩ :=
        overlap_of_no_room some_slots bounded (Nat.lt_of_not_le full)
      exact overlap (apart 0 j after reached)
    · intro room i j before reached
      have fewer : (j.toNat + 1) * each ≤ (last.toNat + 1) * each :=
        Nat.mul_le_mul_right each (Nat.succ_le_succ reached)
      exact disjoint_of_room before (Nat.le_trans fewer room)

/-- The last element for which there are slots, where each takes three. -/
def lastTriple : Word :=
  BitVec.ofNat 256 (2 ^ 256 / 3 - 1)

theorem triples_apart :
    (0 < lastTriple ∧ (lastTriple.toNat + 1) * 3 ≤ 2 ^ 256 ∧
      Disjoint (elementBlock 7 0 3) (elementBlock 7 lastTriple 3)) ∧
    1 ≤ 3 ∧ 3 ≤ 2 ^ 256 ∧ ¬ ∀ i j : Word, i < j → j ≤ lastTriple + 1 →
      Disjoint (elementBlock 7 i 3) (elementBlock 7 j 3) := by
  obtain ⟨apart, -, exact⟩ := element_blocks_apart 7 3
  have after : 0 < lastTriple := by decide
  have room : (lastTriple.toNat + 1) * 3 ≤ 2 ^ 256 := by decide
  have full : ¬ ((lastTriple + 1).toNat + 1) * 3 ≤ 2 ^ 256 := by decide
  refine ⟨⟨after, room, apart 0 lastTriple after room⟩, by decide, by decide, fun all => full ?_⟩
  exact (exact (by decide) (by decide) (lastTriple + 1)).mp all

/-- What a slot is derived from: a sequence by its base slot, or an entry by its key and the base slot of
its mapping. -/
inductive Origin where
  | elements (base : Word)
  | entry (key base : Word)
deriving DecidableEq

namespace Origin

def message : Origin → List UInt8
  | .elements base => base.bytes
  | .entry key base => key.bytes ++ base.bytes

def slot : Origin → Word
  | .elements base => arrayData base
  | .entry key base => mappingValue key base

theorem slot_eq_hashed (o : Origin) : o.slot = hashed o.message := by
  cases o <;> rfl

/-- The messages of sequences have 32 bytes and those of entries 64, and each half has the same length. -/
theorem message_inj {o p : Origin} : o.message = p.message ↔ o = p := by
  refine ⟨fun same => ?_, fun same => by rw [same]⟩
  cases o with
  | elements base =>
    cases p with
    | elements base' => rw [Word.bytes_inj.mp same]
    | entry key' base' =>
      have lengths := congrArg List.length same
      simp [message] at lengths
  | entry key base =>
    cases p with
    | elements base' =>
      have lengths := congrArg List.length same
      simp [message] at lengths
    | entry key' base' =>
      obtain ⟨keys, bases⟩ := List.append_inj same (by simp)
      rw [Word.bytes_inj.mp keys, Word.bytes_inj.mp bases]

theorem slot_eq_iff {o p : Origin} :
    o.slot = p.slot ↔ o = p ∨ Keccak.Collision o.message p.message := by
  have hashes : o.slot = p.slot ↔ Keccak.hash o.message = Keccak.hash p.message := by
    rw [slot_eq_hashed, slot_eq_hashed]
    exact Word.ofBytes_inj (Keccak.length_hash _) (Keccak.length_hash _)
  constructor
  · intro same
    by_cases one : o = p
    · exact .inl one
    · exact .inr ⟨fun messages => one (message_inj.mp messages), hashes.mp same⟩
  · rintro (rfl | ⟨-, same⟩)
    · rfl
    · exact hashes.mpr same

end Origin

def addressMessage (address : Address) (base : Word) : List UInt8 :=
  List.replicate 12 0 ++ address.bytes ++ base.bytes

theorem addressMessage_eq (address : Address) (base : Word) :
    addressMessage address base = (Origin.entry (Word.ofBytes address.bytes) base).message := by
  rw [addressMessage, Address.padded_bytes, Origin.message]

theorem addressMessage_inj {a a' : Address} {base base' : Word} :
    addressMessage a base = addressMessage a' base' ↔ a = a' ∧ base = base' := by
  refine ⟨fun same => ?_, ?_⟩
  · obtain ⟨keys, bases⟩ := List.append_inj same (by simp)
    exact ⟨Address.bytes_inj.mp (List.append_cancel_left keys), Word.bytes_inj.mp bases⟩
  · rintro ⟨rfl, rfl⟩
    rfl

/-- Two derived slots are the same only where they are derived from the same, or where two different messages
have one hash. The key of an entry may be any 32 bytes, and an address is a key as its number is. -/
theorem slots_collide_with_hashes :
    (∀ o p : Origin, o.slot = p.slot ↔ o = p ∨ Keccak.Collision o.message p.message) ∧
    (∀ (key : Vector UInt8 32) (base : Word),
      (Origin.entry (Word.ofBytes key.toList) base).message = key.toList ++ base.bytes) ∧
    (∀ (address : Address) (base : Word),
      mappingValueOfAddress address base = mappingValue (BitVec.ofNat 256 (ofBigEndian address.bytes)) base ∧
      mappingValueOfAddress address base = hashed (addressMessage address base)) ∧
    ∀ (address address' : Address) (base base' : Word),
      addressMessage address base = addressMessage address' base' ↔ address = address' ∧ base = base' := by
  refine ⟨fun o p => Origin.slot_eq_iff, fun key base => ?_, fun address base => ⟨?_, rfl⟩,
    fun a a' base base' => addressMessage_inj⟩
  · rw [Origin.message, Word.bytes_ofBytes (by simp)]
  · have same := congrArg hashed (addressMessage_eq address base)
    exact same

end ChildSlot

end ContractRegistry
