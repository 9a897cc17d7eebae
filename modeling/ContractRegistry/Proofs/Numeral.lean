import ContractRegistry.Numeral

/-!
Numbers are read back from their digits, and which texts are read as a number.

A decimal numeral of a number is its digits with any number of zeros in front, and no other text. Where a
sign is allowed, there may be one plus sign before the zeros.
-/
namespace ContractRegistry.Numeral

theorem hexDigit?_hexChar : ∀ n < 16, hexDigit? (hexChar n) = some n := by
  decide

theorem bounds_of_isDigit (c : Char) (digit : c.isDigit = true) : '0' ≤ c ∧ c ≤ '9' := by
  simpa [Char.isDigit, Char.le_def] using digit

theorem decimalDigit?_of_isDigit (c : Char) (digit : c.isDigit = true) :
    decimalDigit? c = some (c.toNat - '0'.toNat) := by
  simp [decimalDigit?, bounds_of_isDigit c digit]

@[simp] theorem length_hexDigits (width n : Nat) : (hexDigits width n).length = width := by
  induction width generalizing n with
  | zero => rfl
  | succ width ih => simp [hexDigits, ih]

theorem extend_append (base : Nat) (digit? : Char → Option Nat) (value : Nat) (cs ds : List Char) :
    extend base digit? value (cs ++ ds) =
      (extend base digit? value cs).bind (extend base digit? · ds) := by
  induction cs generalizing value with
  | nil => rfl
  | cons c cs ih =>
    simp only [List.cons_append, extend]
    cases digit? c with
    | none => rfl
    | some d => exact ih _

theorem ofDigits?_eq_extend (base : Nat) (digit? : Char → Option Nat) (cs : List Char)
    (filled : 0 < cs.length) : ofDigits? base digit? cs = extend base digit? 0 cs := by
  cases cs with
  | nil => contradiction
  | cons c cs => rfl

theorem extend_hexDigits (width value n : Nat) :
    extend 16 hexDigit? value (hexDigits width n) =
      some (value * Nat.pow 16 width + n % Nat.pow 16 width) := by
  induction width generalizing n with
  | zero => simp [hexDigits, extend, Nat.mod_one]
  | succ width ih =>
    have last := hexDigit?_hexChar (n % 16) (Nat.mod_lt n (by decide))
    have power : Nat.pow 16 (width + 1) = 16 * Nat.pow 16 width := Nat.mul_comm _ _
    have scaled : value * (16 * Nat.pow 16 width) = value * Nat.pow 16 width * 16 := by
      rw [Nat.mul_comm 16, Nat.mul_assoc]
    have split : n % (16 * Nat.pow 16 width) = n % 16 + 16 * (n / 16 % Nat.pow 16 width) :=
      Nat.mod_mul
    have same : (value * Nat.pow 16 width + n / 16 % Nat.pow 16 width) * 16 + n % 16 =
        value * Nat.pow 16 (width + 1) + n % Nat.pow 16 (width + 1) := by
      rw [power, scaled, split]
      omega
    rw [hexDigits, extend_append, ih, Option.bind_some, extend, last]
    exact congrArg some same

theorem isDigit_of_mem_toDigits {n : Nat} : ∀ c ∈ Nat.toDigits 10 n, c.isDigit = true :=
  fun _ member => Nat.isDigit_of_mem_toDigits (by decide) (by decide) member

theorem exists_toDigits (n : Nat) : ∃ c cs, Nat.toDigits 10 n = c :: cs ∧ c.isDigit = true := by
  have all := isDigit_of_mem_toDigits (n := n)
  cases written : Nat.toDigits 10 n with
  | nil => exact absurd written Nat.toDigits_ne_nil
  | cons c cs => exact ⟨c, cs, rfl, all c (by simp [written])⟩

theorem toDigits_injective {m n : Nat} (same : Nat.toDigits 10 m = Nat.toDigits 10 n) : m = n := by
  have values := congrArg (Nat.ofDigitChars 10 · 0) same
  simpa [Nat.ofDigitChars_toDigits] using values

theorem head_toDigits (n : Nat) (head : (Nat.toDigits 10 n).head? = some '0') : n = 0 := by
  induction n using Nat.strongRecOn with
  | ind n ih =>
    by_cases single : n < 10
    · rw [Nat.toDigits_of_lt_base single] at head
      have digit : n.digitChar = '0' := by simpa using head
      simpa using digit
    · rw [Nat.toDigits_of_base_le (by decide) (by omega)] at head
      have upper : (Nat.toDigits 10 (n / 10)).head? = some '0' := by
        obtain ⟨c, cs, written, -⟩ := exists_toDigits (n / 10)
        simpa [written] using head
      have zero := ih (n / 10) (by omega) upper
      omega

theorem toDigits_eq_zero_cons_iff {n : Nat} (cs : List Char) :
    Nat.toDigits 10 n = '0' :: cs ↔ n = 0 ∧ cs = [] := by
  constructor
  · intro same
    obtain rfl := head_toDigits n (by rw [same]; rfl)
    exact ⟨rfl, (List.cons.inj same).2.symm⟩
  · rintro ⟨rfl, rfl⟩
    rfl

theorem digitChar_of_decimalDigit? {c : Char} {d : Nat} (read : decimalDigit? c = some d) :
    d < 10 ∧ Nat.digitChar d = c := by
  unfold decimalDigit? at read
  split at read
  · next within =>
    obtain rfl := Option.some.inj read
    have least : '0'.toNat ≤ c.toNat := within.1
    have most : c.toNat ≤ '9'.toNat := within.2
    have zero : '0'.toNat = 48 := rfl
    have nine : '9'.toNat = 57 := rfl
    refine ⟨by omega, Char.toNat_inj.mp ?_⟩
    rw [Nat.toNat_digitChar_of_lt_ten (by omega)]
    omega
  · contradiction

theorem not_mem_toDigits {n : Nat} {c : Char} (digit : decimalDigit? c = none) :
    c ∉ Nat.toDigits 10 n := by
  intro member
  rw [decimalDigit?_of_isDigit c (isDigit_of_mem_toDigits c member)] at digit
  contradiction

def Padded (n : Nat) (cs : List Char) : Prop :=
  ∃ zeros, cs = List.replicate zeros '0' ++ Nat.toDigits 10 n

theorem padded_cons_iff {n : Nat} (c : Char) (cs : List Char) :
    Padded n (c :: cs) ↔ Nat.toDigits 10 n = c :: cs ∨ c = '0' ∧ Padded n cs := by
  constructor
  · rintro ⟨_ | zeros, same⟩
    · exact .inl same.symm
    · obtain ⟨rfl, rest⟩ := List.cons.inj same
      exact .inr ⟨rfl, zeros, rest⟩
  · rintro (same | ⟨rfl, zeros, rfl⟩)
    · exact ⟨0, same.symm⟩
    · exact ⟨zeros + 1, rfl⟩

/-- Digits go on with a number exactly when they stand behind its own digits in those of the result. -/
theorem extend_eq_some_iff {value n : Nat} (positive : 0 < value) (cs : List Char) :
    extend 10 decimalDigit? value cs = some n ↔ Nat.toDigits 10 n = Nat.toDigits 10 value ++ cs := by
  induction cs generalizing value with
  | nil =>
    rw [extend, Option.some_inj, List.append_nil]
    exact ⟨fun same => by rw [same], fun same => (toDigits_injective same).symm⟩
  | cons c cs ih =>
    rw [extend]
    cases digit : decimalDigit? c with
    | none =>
      refine ⟨nofun, fun same => absurd ?_ (not_mem_toDigits (n := n) digit)⟩
      rw [same]
      simp
    | some d =>
      obtain ⟨small, rfl⟩ := digitChar_of_decimalDigit? digit
      have next := Nat.toDigits_append_toDigits (b := 10) (by decide) positive small
      rw [Nat.toDigits_of_lt_base small] at next
      rw [Option.bind_eq_bind, Option.bind_some, ih (by omega), Nat.mul_comm, ← next, List.append_assoc]
      rfl

theorem ofDigits?_eq_some_iff {n : Nat} (cs : List Char) :
    ofDigits? 10 decimalDigit? cs = some n ↔ Padded n cs := by
  induction cs with
  | nil =>
    refine ⟨nofun, fun ⟨zeros, same⟩ => ?_⟩
    exact absurd (List.append_eq_nil_iff.mp same.symm).2 Nat.toDigits_ne_nil
  | cons c cs ih =>
    rw [padded_cons_iff, ofDigits?_eq_extend _ _ (c :: cs) (Nat.succ_pos _), extend]
    by_cases zero : c = '0'
    · subst zero
      have digit : decimalDigit? '0' = some 0 := rfl
      rw [toDigits_eq_zero_cons_iff, ← ih, digit]
      cases cs with
      | nil => simp [extend, ofDigits?, eq_comm]
      | cons c cs => simp [ofDigits?_eq_extend]
    · cases digit : decimalDigit? c with
      | none =>
        refine ⟨nofun, ?_⟩
        rintro (same | ⟨same, -⟩)
        · exact absurd (by rw [same]; simp) (not_mem_toDigits (n := n) digit)
        · exact absurd same zero
      | some d =>
        obtain ⟨small, rfl⟩ := digitChar_of_decimalDigit? digit
        have positive : 0 < d := Nat.pos_of_ne_zero fun none => zero (by rw [none]; rfl)
        rw [Option.bind_eq_bind, Option.bind_some, extend_eq_some_iff (by omega), Nat.zero_mul, Nat.zero_add,
          Nat.toDigits_of_lt_base small]
        simp [zero]

theorem not_padded_plus (n : Nat) (cs : List Char) : ¬ Padded n ('+' :: cs) := by
  rw [← ofDigits?_eq_some_iff, ofDigits?_eq_extend _ _ ('+' :: cs) (Nat.succ_pos _), extend]
  exact nofun

theorem checked_eq_some_iff {p : Nat → Prop} [DecidablePred p] {read : Option Nat} {n : Nat} :
    (do let value ← read; if p value then some value else none) = some n ↔ read = some n ∧ p n := by
  cases read with
  | none => simp
  | some value =>
    simp only [Option.bind_eq_bind, Option.bind_some, Option.ite_none_right_eq_some, Option.some_inj]
    rw [and_comm]
    exact and_congr_right fun same => by rw [same]

theorem unsigned?_eq_some_iff {bound n : Nat} (cs : List Char) :
    unsigned? bound cs = some n ↔
      n < bound ∧ (Padded n cs ∨ ∃ digits, cs = '+' :: digits ∧ Padded n digits) := by
  by_cases signed : ∃ digits, cs = '+' :: digits
  · obtain ⟨digits, rfl⟩ := signed
    rw [unsigned?.eq_1, checked_eq_some_iff, ofDigits?_eq_some_iff]
    simp [not_padded_plus, and_comm]
  · have plain : ∀ digits, cs ≠ '+' :: digits := fun digits same => signed ⟨digits, same⟩
    rw [unsigned?.eq_2 bound cs plain, checked_eq_some_iff, ofDigits?_eq_some_iff]
    simp [plain, and_comm]

end ContractRegistry.Numeral
