import ContractRegistry.Text.Utf8

/-!
UTF-8 loses no character: the bytes of a text are cut into exactly its characters, with no stray run.
-/
namespace ContractRegistry.Text.Utf8

theorem toNat_byte (n : Nat) (small : n < 256) : n.toUInt8.toNat = n := by
  simp only [Nat.toUInt8, UInt8.toNat_ofNat']
  omega

section
variable {b : UInt8} {n : Nat} {p : Pending} (bs : List UInt8)

theorem cut_single (byte : b.toNat = n) (small : n < 0x80) :
    cut none (b :: bs) = .char (Char.ofNat n) :: cut none bs := by
  simp [cut, step, begin, byte, small]

theorem cut_lead {l : Lead} (lead : lead? b = some l) (high : ¬ b.toNat < 0x80) :
    cut none (b :: bs) = cut (some ⟨[b], l.bits, l.following, l.low, l.high⟩) bs := by
  simp [cut, step, begin, high, lead]

theorem cut_more (byte : b.toNat = 0x80 + n) (within : p.low ≤ 0x80 + n ∧ 0x80 + n ≤ p.high)
    (more : ¬ p.owed ≤ 1) :
    cut (some p) (b :: bs) =
      cut (some ⟨b :: p.seen, p.value * 64 + n, p.owed - 1, 0x80, 0xBF⟩) bs := by
  simp [cut, step, byte, within, more]

theorem cut_last (byte : b.toNat = 0x80 + n) (within : p.low ≤ 0x80 + n ∧ 0x80 + n ≤ p.high)
    (last : p.owed ≤ 1) :
    cut (some p) (b :: bs) = .char (Char.ofNat (p.value * 64 + n)) :: cut none bs := by
  simp [cut, step, byte, within, last]

end

section
variable {b : UInt8} {n : Nat}

theorem lead_two (byte : b.toNat = 0xC0 + n) (least : 2 ≤ n) (most : n < 32) :
    lead? b = some ⟨n, 1, 0x80, 0xBF⟩ := by
  have within : 0xC2 ≤ 0xC0 + n ∧ 0xC0 + n ≤ 0xDF := by omega
  simp [lead?, byte, within]

/-- The range of the second byte leaves out the overlong forms and the surrogates, and nothing else. -/
theorem lead_three (second : Nat) (byte : b.toNat = 0xE0 + n) (most : n < 16) (small : second < 64)
    (least : 0x20 ≤ n * 64 + second)
    (scalar : n * 64 + second < 0x360 ∨ 0x37F < n * 64 + second) :
    ∃ low high, lead? b = some ⟨n, 2, low, high⟩ ∧ low ≤ 0x80 + second ∧ 0x80 + second ≤ high := by
  have two : ¬ 0xE0 + n ≤ 0xDF := by omega
  by_cases overlong : n = 0
  · exact ⟨0xA0, 0xBF, by simp [lead?, byte, overlong], by omega, by omega⟩
  by_cases surrogates : n = 0xD
  · exact ⟨0x80, 0x9F, by simp [lead?, byte, surrogates], by omega, by omega⟩
  have plain : 0xE1 ≤ 0xE0 + n ∧ 0xE0 + n ≤ 0xEF := by omega
  have other : ¬ 0xE0 + n = 0xED := by omega
  exact ⟨0x80, 0xBF, by simp [lead?, byte, two, overlong, other, plain], by omega, by omega⟩

theorem lead_four (second : Nat) (byte : b.toNat = 0xF0 + n) (small : second < 64)
    (least : 0x10 ≤ n * 64 + second) (most : n * 64 + second < 0x110) :
    ∃ low high, lead? b = some ⟨n, 3, low, high⟩ ∧ low ≤ 0x80 + second ∧ 0x80 + second ≤ high := by
  have two : ¬ 0xF0 + n ≤ 0xDF := by omega
  have three : ¬ 0xF0 + n ≤ 0xEF ∧ ¬ 0xF0 + n = 0xE0 ∧ ¬ 0xF0 + n = 0xED := by omega
  by_cases overlong : n = 0
  · exact ⟨0x90, 0xBF, by simp [lead?, byte, overlong], by omega, by omega⟩
  by_cases last : n = 4
  · exact ⟨0x80, 0x8F, by simp [lead?, byte, last], by omega, by omega⟩
  have plain : 0xF1 ≤ 0xF0 + n ∧ 0xF0 + n ≤ 0xF3 := by omega
  have other : ¬ 0xF0 + n = 0xF4 := by omega
  exact ⟨0x80, 0xBF, by simp [lead?, byte, two, three, overlong, other, plain], by omega, by omega⟩

end

theorem scalar_toNat (c : Char) : c.toNat < 0xD800 ∨ 0xDFFF < c.toNat ∧ c.toNat < 0x110000 :=
  c.valid

section
variable (n : Nat) (bs : List UInt8)

theorem cut_two (least : 0x80 ≤ n) (most : n < 0x800) :
    cut none ((0xC0 + n / 64).toUInt8 :: (0x80 + n % 64).toUInt8 :: bs) =
      .char (Char.ofNat n) :: cut none bs := by
  have first := toNat_byte (0xC0 + n / 64) (by omega)
  have final := toNat_byte (0x80 + n % 64) (by omega)
  have lead := lead_two first (by omega) (by omega)
  have whole : n / 64 * 64 + n % 64 = n := by omega
  rw [cut_lead _ lead (by omega), cut_last _ final (by simp only; omega) (by simp), whole]

theorem cut_three (least : 0x800 ≤ n) (most : n < 0x10000) (scalar : n < 0xD800 ∨ 0xDFFF < n) :
    cut none ((0xE0 + n / 4096).toUInt8 :: (0x80 + n / 64 % 64).toUInt8 ::
        (0x80 + n % 64).toUInt8 :: bs) =
      .char (Char.ofNat n) :: cut none bs := by
  have first := toNat_byte (0xE0 + n / 4096) (by omega)
  have second := toNat_byte (0x80 + n / 64 % 64) (by omega)
  have final := toNat_byte (0x80 + n % 64) (by omega)
  obtain ⟨low, high, lead, above, below⟩ :=
    lead_three (n / 64 % 64) first (by omega) (by omega) (by omega) (by omega)
  have whole : (n / 4096 * 64 + n / 64 % 64) * 64 + n % 64 = n := by omega
  rw [cut_lead _ lead (by omega), cut_more _ second ⟨above, below⟩ (by simp),
    cut_last _ final (by simp only; omega) (by simp), whole]

theorem cut_four (least : 0x10000 ≤ n) (most : n < 0x110000) :
    cut none ((0xF0 + n / 262144).toUInt8 :: (0x80 + n / 4096 % 64).toUInt8 ::
        (0x80 + n / 64 % 64).toUInt8 :: (0x80 + n % 64).toUInt8 :: bs) =
      .char (Char.ofNat n) :: cut none bs := by
  have first := toNat_byte (0xF0 + n / 262144) (by omega)
  have second := toNat_byte (0x80 + n / 4096 % 64) (by omega)
  have third := toNat_byte (0x80 + n / 64 % 64) (by omega)
  have final := toNat_byte (0x80 + n % 64) (by omega)
  obtain ⟨low, high, lead, above, below⟩ :=
    lead_four (n / 4096 % 64) first (by omega) (by omega) (by omega)
  have whole : ((n / 262144 * 64 + n / 4096 % 64) * 64 + n / 64 % 64) * 64 + n % 64 = n := by
    omega
  rw [cut_lead _ lead (by omega), cut_more _ second ⟨above, below⟩ (by simp),
    cut_more _ third (by simp only; omega) (by simp),
    cut_last _ final (by simp only; omega) (by simp), whole]

end

theorem cut_encodeChar (c : Char) (bs : List UInt8) :
    cut none (encodeChar c ++ bs) = .char c :: cut none bs := by
  have scalar := scalar_toNat c
  have back : Char.ofNat c.toNat = c := Char.ofNat_toNat c
  unfold encodeChar
  generalize c.toNat = n at scalar back ⊢
  simp only
  split
  · next one => rw [List.singleton_append, cut_single bs (toNat_byte n (by omega)) one, back]
  split
  · exact (cut_two n bs (by omega) (by omega)).trans (by rw [back])
  split
  · exact (cut_three n bs (by omega) (by omega) (by omega)).trans (by rw [back])
  · exact (cut_four n bs (by omega) (by omega)).trans (by rw [back])

theorem pieces_encode (cs : List Char) : pieces (encode cs) = cs.map .char := by
  unfold pieces encode
  induction cs with
  | nil => rfl
  | cons c cs ih => rw [List.flatMap_cons, cut_encodeChar, ih, List.map_cons]

end ContractRegistry.Text.Utf8
