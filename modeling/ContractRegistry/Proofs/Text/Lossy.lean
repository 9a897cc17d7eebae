import ContractRegistry.Text.Utf8
import Mathlib.Data.List.Basic

/-!
Lossy reading and line feeds.

The byte of a line feed belongs to no longer character, so that it closes what has begun before it, and
no other bytes are read as a line feed. Reading a text and cutting it at its line feeds therefore do not
depend on each other.
-/
namespace ContractRegistry.Text.Utf8

/-- However a pending character goes on, it stands for no control character below U+0010. -/
structure Pending.Sound (p : Pending) : Prop where
  low : 0x80 ≤ p.low
  value : 16 ≤ p.value * 64 + (p.low - 0x80)

theorem ofNat_ne_lineFeed {n : Nat} (other : n ≠ 10) : Char.ofNat n ≠ '\n' := by
  intro eq
  by_cases valid : n.isValidChar
  · have char : Char.ofNat n = Char.ofNatAux n valid := dif_pos valid
    have value : n = 10 := congrArg Char.toNat (char.symm.trans eq)
    exact other value
  · have null : Char.ofNat n = '\x00' := dif_neg valid
    exact absurd (null.symm.trans eq) (by decide)

section
variable {b : UInt8}

theorem sound_of_lead {l : Lead} (lead : lead? b = some l) :
    Pending.Sound ⟨[b], l.bits, l.following, l.low, l.high⟩ := by
  simp only [lead?] at lead
  split_ifs at lead
  all_goals
    obtain rfl := Option.some.inj lead
    exact ⟨by simp only; omega, by simp only; omega⟩

theorem begin_small (small : b.toNat < 0x80) : begin b = ([.char (Char.ofNat b.toNat)], none) :=
  if_pos small

theorem begin_sound (p : Pending) (pending : p ∈ (begin b).2) : p.Sound := by
  unfold begin at pending
  split at pending
  · cases pending
  split at pending
  · next lead =>
    cases pending
    exact sound_of_lead lead
  · cases pending

theorem begin_no_lineFeed (other : b.toNat ≠ 10) : .char '\n' ∉ (begin b).1 := by
  have single := ofNat_ne_lineFeed other
  unfold begin
  split
  · simpa using single.symm
  split <;> simp

end

section
variable {pending : Option Pending} {b : UInt8}

theorem step_sound (sound : ∀ p ∈ pending, p.Sound) : ∀ p ∈ (step pending b).2, p.Sound := by
  intro q next
  cases pending with
  | none => exact begin_sound q next
  | some p =>
    have begun := sound p rfl
    simp only [step] at next
    split_ifs at next with within last
    · cases next
    · cases next
      have value := begun.value
      constructor <;> simp only <;> omega
    · exact begin_sound q next

theorem step_no_lineFeed (sound : ∀ p ∈ pending, p.Sound) (other : b.toNat ≠ 10) :
    .char '\n' ∉ (step pending b).1 := by
  cases pending with
  | none => exact begin_no_lineFeed other
  | some p =>
    have begun := sound p rfl
    have value := begun.value
    simp only [step]
    split_ifs with within last
    · have char := ofNat_ne_lineFeed (n := p.value * 64 + (b.toNat - 0x80)) (by omega)
      simpa using char.symm
    · simp
    · simpa using begin_no_lineFeed other

theorem step_lineFeed (sound : ∀ p ∈ pending, p.Sound) (feed : b.toNat = 10) :
    step pending b = (cut pending [] ++ [.char '\n'], none) := by
  have single : begin b = ([.char '\n'], none) := by
    rw [begin_small (by omega), feed]
  cases pending with
  | none => exact single
  | some p =>
    have low := (sound p rfl).low
    have apart : ¬ (p.low ≤ b.toNat ∧ b.toNat ≤ p.high) := by omega
    simp only [step, apart, if_false, single, cut, List.singleton_append]

end

theorem cut_some_ne_nil (bytes : List UInt8) (p : Pending) : cut (some p) bytes ≠ [] := by
  induction bytes generalizing p with
  | nil => simp [cut]
  | cons b bs ih =>
    simp only [cut, step]
    split_ifs
    · simp
    · simpa using ih _
    · simp

theorem pieces_ne_nil {bytes : List UInt8} (filled : bytes ≠ []) : pieces bytes ≠ [] := by
  obtain ⟨b, bs, rfl⟩ := List.exists_cons_of_ne_nil filled
  simp only [pieces, cut, step, begin]
  split
  · simp
  split
  · simpa using cut_some_ne_nil bs _
  · simp

section
variable {pending : Option Pending} {bytes : List UInt8}

theorem cut_no_lineFeed (sound : ∀ p ∈ pending, p.Sound) (others : ∀ b ∈ bytes, b.toNat ≠ 10) :
    .char '\n' ∉ cut pending bytes := by
  induction bytes generalizing pending with
  | nil => cases pending <;> simp [cut]
  | cons b bs ih =>
    have here := step_no_lineFeed sound (others b List.mem_cons_self)
    have later := ih (step_sound (b := b) sound) fun c mem => others c (List.mem_cons_of_mem b mem)
    rw [cut, List.mem_append, not_or]
    exact ⟨here, later⟩

theorem cut_append_lineFeed {feed : UInt8} (ten : feed.toNat = 10) (rest : List UInt8)
    (sound : ∀ p ∈ pending, p.Sound) :
    cut pending (bytes ++ feed :: rest) = cut pending bytes ++ .char '\n' :: cut none rest := by
  induction bytes generalizing pending with
  | nil => rw [List.nil_append, cut, step_lineFeed sound ten, List.append_assoc, List.singleton_append]
  | cons b bs ih =>
    rw [List.cons_append, cut, cut, ih (step_sound sound), List.append_assoc]

end

section
variable {bytes : List UInt8}

theorem decodeLossy_ne_nil (filled : bytes ≠ []) : decodeLossy bytes ≠ [] :=
  mt List.map_eq_nil_iff.mp (pieces_ne_nil filled)

theorem decodeLossy_no_lineFeed (others : ∀ b ∈ bytes, b.toNat ≠ 10) : '\n' ∉ decodeLossy bytes := by
  intro mem
  obtain ⟨piece, cut, eq⟩ := List.mem_map.mp mem
  cases piece with
  | char c =>
    obtain rfl : c = '\n' := eq
    exact cut_no_lineFeed (by simp) others cut
  | stray run => exact absurd eq (show replacement ≠ '\n' by decide)

theorem decodeLossy_append_lineFeed {feed : UInt8} (ten : feed.toNat = 10) (rest : List UInt8) :
    decodeLossy (bytes ++ feed :: rest) = decodeLossy bytes ++ '\n' :: decodeLossy rest := by
  unfold decodeLossy pieces
  rw [cut_append_lineFeed ten rest (by simp), List.map_append, List.map_cons]
  rfl

end

end ContractRegistry.Text.Utf8
