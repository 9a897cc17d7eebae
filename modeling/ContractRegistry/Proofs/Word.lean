import ContractRegistry.Address
import Mathlib.Algebra.Group.Nat.Defs
import Mathlib.Data.List.Induction

/-!
Numbers as bytes, the highest first.

So many bytes hold exactly the numbers below so many powers of 256, each of them in one way. A number that
needs fewer bytes has zeros in front.
-/
namespace ContractRegistry

@[simp] theorem length_bigEndian (count n : Nat) : (bigEndian count n).length = count := by
  induction count generalizing n with
  | zero => rfl
  | succ count ih => rw [bigEndian, List.length_append, ih, List.length_singleton]

theorem ofBigEndian_concat (bytes : List UInt8) (b : UInt8) :
    ofBigEndian (bytes ++ [b]) = ofBigEndian bytes * 256 + b.toNat := by
  simp [ofBigEndian]

theorem ofBigEndian_lt (bytes : List UInt8) : ofBigEndian bytes < 256 ^ bytes.length := by
  induction bytes using List.reverseRecOn with
  | nil => decide
  | append_singleton bytes b ih =>
    have byte := b.toNat_lt
    rw [ofBigEndian_concat, List.length_append, List.length_singleton, Nat.pow_succ]
    omega

theorem ofBigEndian_bigEndian (count n : Nat) : ofBigEndian (bigEndian count n) = n % 256 ^ count := by
  induction count generalizing n with
  | zero => simp [bigEndian, ofBigEndian, Nat.mod_one]
  | succ count ih =>
    have split : n % (256 * 256 ^ count) = n % 256 + 256 * (n / 256 % 256 ^ count) := Nat.mod_mul
    rw [bigEndian, ofBigEndian_concat, ih, Nat.pow_succ, Nat.mul_comm (256 ^ count), split]
    simp
    omega

theorem bigEndian_ofBigEndian (bytes : List UInt8) : bigEndian bytes.length (ofBigEndian bytes) = bytes := by
  induction bytes using List.reverseRecOn with
  | nil => rfl
  | append_singleton bytes b ih =>
    have byte := b.toNat_lt
    have upper : (ofBigEndian bytes * 256 + b.toNat) / 256 = ofBigEndian bytes := by omega
    have lower : (ofBigEndian bytes * 256 + b.toNat) % 256 = b.toNat := by omega
    rw [ofBigEndian_concat, List.length_append, List.length_singleton, bigEndian, upper, lower, ih]
    simp

theorem bigEndian_injective {count m n : Nat} (small : m < 256 ^ count) (small' : n < 256 ^ count)
    (same : bigEndian count m = bigEndian count n) : m = n := by
  have values := congrArg ofBigEndian same
  rwa [ofBigEndian_bigEndian, ofBigEndian_bigEndian, Nat.mod_eq_of_lt small, Nat.mod_eq_of_lt small'] at values

theorem ofBigEndian_injective {bs cs : List UInt8} (length : bs.length = cs.length)
    (same : ofBigEndian bs = ofBigEndian cs) : bs = cs := by
  rw [← bigEndian_ofBigEndian bs, ← bigEndian_ofBigEndian cs, length, same]

theorem bigEndian_padded (count : Nat) {width n : Nat} (small : n < 256 ^ width) :
    bigEndian (count + width) n = List.replicate count 0 ++ bigEndian width n := by
  apply ofBigEndian_injective
  · simp
  · have zeros : ∀ count, ofBigEndian (List.replicate count 0 ++ bigEndian width n) = n := by
      intro count
      induction count with
      | zero => simpa [ofBigEndian_bigEndian] using Nat.mod_eq_of_lt small
      | succ count ih => simpa [ofBigEndian, List.replicate_succ] using ih
    have larger : 256 ^ width ≤ 256 ^ (count + width) := Nat.pow_le_pow_right (by decide) (by omega)
    rw [ofBigEndian_bigEndian, zeros, Nat.mod_eq_of_lt (by omega)]

namespace Word

@[simp] theorem length_bytes (w : Word) : w.bytes.length = 32 :=
  length_bigEndian 32 w.toNat

theorem ofBytes_bytes (w : Word) : ofBytes w.bytes = w := by
  have small : w.toNat < 256 ^ 32 := w.isLt
  apply BitVec.eq_of_toNat_eq
  rw [ofBytes, bytes, ofBigEndian_bigEndian, Nat.mod_eq_of_lt small, BitVec.ofNat_toNat, BitVec.setWidth_eq]

theorem toNat_ofBytes {bytes : List UInt8} (length : bytes.length = 32) :
    (ofBytes bytes).toNat = ofBigEndian bytes := by
  have small := ofBigEndian_lt bytes
  rw [length] at small
  exact Nat.mod_eq_of_lt small

theorem bytes_ofBytes {bytes : List UInt8} (length : bytes.length = 32) : (ofBytes bytes).bytes = bytes := by
  rw [Word.bytes, toNat_ofBytes length, ← length, bigEndian_ofBigEndian]

theorem bytes_inj {v w : Word} : v.bytes = w.bytes ↔ v = w := by
  refine ⟨fun same => ?_, fun same => by rw [same]⟩
  rw [← ofBytes_bytes v, same, ofBytes_bytes]

theorem ofBytes_inj {bs cs : List UInt8} (length : bs.length = 32) (length' : cs.length = 32) :
    ofBytes bs = ofBytes cs ↔ bs = cs := by
  rw [← bytes_inj, bytes_ofBytes length, bytes_ofBytes length']

end Word

namespace Address

@[simp] theorem length_bytes (a : Address) : a.bytes.length = 20 :=
  length_bigEndian 20 a.toNat

theorem bytes_inj {a b : Address} : a.bytes = b.bytes ↔ a = b := by
  refine ⟨fun same => ?_, fun same => by rw [same]⟩
  exact BitVec.eq_of_toNat_eq (bigEndian_injective a.isLt b.isLt same)

/-- The bytes of an address behind twelve zeros are those of the word with the same number. -/
theorem padded_bytes (a : Address) :
    List.replicate 12 0 ++ a.bytes = (Word.ofBytes a.bytes).bytes := by
  have small : a.toNat < 256 ^ 20 := a.isLt
  have value : ofBigEndian a.bytes = a.toNat := by
    rw [bytes, byteCount, ofBigEndian_bigEndian, Nat.mod_eq_of_lt small]
  have fits : a.toNat < 2 ^ 256 := by omega
  rw [Word.ofBytes, value, Word.bytes, BitVec.toNat_ofNat, Nat.mod_eq_of_lt fits]
  exact (bigEndian_padded 12 small).symm

end Address

end ContractRegistry
