import ContractRegistry.Elementary
import ContractRegistry.Proofs.Numeral

/-!
Which texts are read as names of built-in types.

The name of a type is its letters and, where it has one, its width. All names of the types of the language
are read, and the short names of three of them. Besides these, a width is read that has a plus sign, and
then any number of zeros, before its digits: a sign is all that is not told apart from a digit.
-/
namespace ContractRegistry

def optionalDigits : Option Nat → List Char
  | none => []
  | some n => Nat.toDigits 10 n

theorem isDigit_optionalDigits {n : Option Nat} : ∀ c ∈ optionalDigits n, c.isDigit = true := by
  cases n with
  | none => exact fun c member => absurd member List.not_mem_nil
  | some n => exact Numeral.isDigit_of_mem_toDigits

theorem optionalDigits_injective {m n : Option Nat} (same : optionalDigits m = optionalDigits n) :
    m = n := by
  cases m with
  | none =>
    cases n with
    | none => rfl
    | some n => exact absurd same.symm Nat.toDigits_ne_nil
  | some m =>
    cases n with
    | none => exact absurd same Nat.toDigits_ne_nil
    | some n => rw [Numeral.toDigits_injective same]

namespace Elementary

open Numeral (Padded)

def letters : Elementary → List Char
  | .bool => ['b', 'o', 'o', 'l']
  | .uint _ => ['u', 'i', 'n', 't']
  | .int _ => ['i', 'n', 't']
  | .address => ['a', 'd', 'd', 'r', 'e', 's', 's']
  | .fixedBytes _ => ['b', 'y', 't', 'e', 's']
  | .bytes => ['b', 'y', 't', 'e', 's']
  | .string => ['s', 't', 'r', 'i', 'n', 'g']

def width : Elementary → Option Nat
  | .uint bits => some bits
  | .int bits => some bits
  | .fixedBytes width => some width
  | _ => none

theorem name_toList (kind : Elementary) : kind.name.toList = kind.letters ++ optionalDigits kind.width := by
  cases kind <;> simp [name, letters, width, optionalDigits]

/-- A width as it is read: in digits, or behind a plus sign and zeros. -/
def ReadWidth (n : Nat) (cs : List Char) : Prop :=
  cs = Nat.toDigits 10 n ∨ ∃ digits, cs = '+' :: digits ∧ Padded n digits

theorem width?_eq_some_iff {bound n : Nat} (positive : 0 < n) (cs : List Char) :
    width? bound cs = some n ↔ n < bound ∧ ReadWidth n cs := by
  have led (rest : List Char) : '0' :: rest ≠ Nat.toDigits 10 n := fun same =>
    absurd ((Numeral.toDigits_eq_zero_cons_iff rest).mp same.symm).1 (Nat.ne_of_gt positive)
  by_cases zero : ∃ rest, cs = '0' :: rest
  · obtain ⟨rest, rfl⟩ := zero
    rw [width?.eq_1]
    simp [ReadWidth, led]
  · have other : ∀ rest, cs ≠ '0' :: rest := fun rest same => zero ⟨rest, same⟩
    have plain : Padded n cs ↔ cs = Nat.toDigits 10 n := by
      refine ⟨?_, fun same => ⟨0, same⟩⟩
      rintro ⟨_ | zeros, same⟩
      · exact same
      · exact absurd same (other _)
    rw [width?.eq_2 bound cs other, Numeral.unsigned?_eq_some_iff, plain, ReadWidth]

/-- The types of the language. Integers have whole bytes, and nothing is longer than a slot. -/
def Standard : Elementary → Prop
  | .uint bits => bits % 8 = 0 ∧ 8 ≤ bits ∧ bits ≤ 256
  | .int bits => bits % 8 = 0 ∧ 8 ≤ bits ∧ bits ≤ 256
  | .fixedBytes width => 1 ≤ width ∧ width ≤ 32
  | _ => True

theorem checked_width?_eq_some_iff {bound n : Nat} {Fits : Nat → Prop} [DecidablePred Fits]
    (range : ∀ n, Fits n → 0 < n ∧ n < bound) (cs : List Char) :
    (do let n ← width? bound cs; if Fits n then some n else none) = some n ↔ Fits n ∧ ReadWidth n cs := by
  rw [Numeral.checked_eq_some_iff]
  constructor
  · rintro ⟨read, fits⟩
    exact ⟨fits, ((width?_eq_some_iff (range n fits).1 cs).mp read).2⟩
  · rintro ⟨fits, read⟩
    obtain ⟨positive, small⟩ := range n fits
    exact ⟨(width?_eq_some_iff positive cs).mpr ⟨small, read⟩, fits⟩

theorem integerWidth?_eq_some_iff {bits : Nat} (cs : List Char) :
    integerWidth? cs = some bits ↔ (bits % 8 = 0 ∧ 8 ≤ bits ∧ bits ≤ 256) ∧ ReadWidth bits cs :=
  checked_width?_eq_some_iff (fun bits fits => by omega) cs

theorem bytesWidth?_eq_some_iff {width : Nat} (cs : List Char) :
    bytesWidth? cs = some width ↔ (1 ≤ width ∧ width ≤ 32) ∧ ReadWidth width cs :=
  checked_width?_eq_some_iff (fun width fits => by omega) cs

theorem ofSizedName?_eq_some_iff {kind : Elementary} (cs : List Char) :
    ofSizedName? cs = some kind ↔
      kind.Standard ∧ ∃ n digits, kind.width = some n ∧ ReadWidth n digits ∧ cs = kind.letters ++ digits := by
  constructor
  · intro read
    unfold ofSizedName? at read
    split at read
    · next digits =>
      obtain ⟨bits, width, rfl⟩ := Option.map_eq_some_iff.mp read
      obtain ⟨standard, width⟩ := (integerWidth?_eq_some_iff digits).mp width
      exact ⟨standard, bits, digits, rfl, width, rfl⟩
    · next digits =>
      obtain ⟨bits, width, rfl⟩ := Option.map_eq_some_iff.mp read
      obtain ⟨standard, width⟩ := (integerWidth?_eq_some_iff digits).mp width
      exact ⟨standard, bits, digits, rfl, width, rfl⟩
    · next digits =>
      obtain ⟨n, width, rfl⟩ := Option.map_eq_some_iff.mp read
      obtain ⟨standard, width⟩ := (bytesWidth?_eq_some_iff digits).mp width
      exact ⟨standard, n, digits, rfl, width, rfl⟩
    · contradiction
  · rintro ⟨standard, n, digits, sized, width, rfl⟩
    cases kind with
    | uint bits =>
      obtain rfl := Option.some.inj sized
      have read := (integerWidth?_eq_some_iff digits).mpr ⟨standard, width⟩
      simp [ofSizedName?, letters, read]
    | int bits =>
      obtain rfl := Option.some.inj sized
      have read := (integerWidth?_eq_some_iff digits).mpr ⟨standard, width⟩
      simp [ofSizedName?, letters, read]
    | fixedBytes n =>
      obtain rfl := Option.some.inj sized
      have read := (bytesWidth?_eq_some_iff digits).mpr ⟨standard, width⟩
      simp [ofSizedName?, letters, read]
    | _ => contradiction

/-- A name of a type of the language: the one that is printed, or a short one. -/
inductive Named : String → Elementary → Prop where
  | printed (kind : Elementary) (standard : kind.Standard) : Named kind.name kind
  | uint : Named "uint" (.uint 256)
  | int : Named "int" (.int 256)
  | byte : Named "byte" (.fixedBytes 1)

/-- A name of a type of the language with a plus sign, and any number of zeros, before the digits of its
width. -/
def Signed (name : String) (kind : Elementary) : Prop :=
  kind.Standard ∧ ∃ n digits, kind.width = some n ∧ Padded n digits ∧
    name.toList = kind.letters ++ '+' :: digits

theorem ofName?_of_mark {name : String} {c : Char} (member : c ∈ name.toList)
    (mark : c.isDigit = true ∨ c = '+') : ofName? name = ofSizedName? name.toList := by
  have lettered (word : String) (letters : word.toList.all (fun c => !c.isDigit && c != '+') = true) :
      name ≠ word := by
    rintro rfl
    have letter := List.all_eq_true.mp letters c member
    rcases mark with digit | rfl
    · simp [digit] at letter
    · simp at letter
  unfold ofName?
  split
  case h_8 => rfl
  all_goals exact absurd rfl (lettered _ (by decide))

theorem not_named_of_plus {name : String} {kind : Elementary} (plus : '+' ∈ name.toList) :
    ¬ Named name kind := by
  intro named
  cases named with
  | printed _ standard =>
    rw [name_toList] at plus
    rcases List.mem_append.mp plus with letter | digit
    · cases kind <;> simp [letters] at letter
    · exact absurd (isDigit_optionalDigits _ digit) (by decide)
  | uint => exact absurd plus (by decide)
  | int => exact absurd plus (by decide)
  | byte => exact absurd plus (by decide)

theorem Signed.plus_mem {name : String} {kind : Elementary} (signed : Signed name kind) :
    '+' ∈ name.toList := by
  obtain ⟨-, n, digits, -, -, text⟩ := signed
  simp [text]

theorem ofName?_printed {kind : Elementary} (standard : kind.Standard) : ofName? kind.name = some kind := by
  cases sized : kind.width with
  | none => cases kind <;> first | rfl | contradiction
  | some n =>
    obtain ⟨c, cs, digits, digit⟩ := Numeral.exists_toDigits n
    have text : kind.name.toList = kind.letters ++ Nat.toDigits 10 n := by
      rw [name_toList, sized, optionalDigits]
    have member : c ∈ kind.name.toList := by simp [text, digits]
    rw [ofName?_of_mark member (.inl digit)]
    exact (ofSizedName?_eq_some_iff _).mpr ⟨standard, n, _, sized, .inl rfl, text⟩

/-- The names that are read are those of the language and those with a plus sign before the width. -/
theorem ofName?_eq_some_iff (name : String) (kind : Elementary) :
    ofName? name = some kind ↔ Named name kind ∨ Signed name kind := by
  constructor
  · intro read
    unfold ofName? at read
    split at read
    case h_8 =>
      obtain ⟨standard, n, digits, sized, width, text⟩ := (ofSizedName?_eq_some_iff _).mp read
      rcases width with rfl | ⟨digits, rfl, padded⟩
      · have printed : kind.name = name := by
          rw [← String.toList_inj, name_toList, sized, text, optionalDigits]
        exact .inl (printed ▸ .printed kind standard)
      · exact .inr ⟨standard, n, digits, sized, padded, text⟩
    case h_1 => cases read; exact .inl (.printed .bool trivial)
    case h_2 => cases read; exact .inl (.printed .address trivial)
    case h_3 => cases read; exact .inl (.printed .bytes trivial)
    case h_4 => cases read; exact .inl (.printed .string trivial)
    case h_5 => cases read; exact .inl .byte
    case h_6 => cases read; exact .inl .uint
    case h_7 => cases read; exact .inl .int
  · rintro (named | signed)
    · cases named with
      | printed _ standard => exact ofName?_printed standard
      | uint => rfl
      | int => rfl
      | byte => rfl
    · rw [ofName?_of_mark signed.plus_mem (.inr rfl)]
      obtain ⟨standard, n, digits, sized, padded, text⟩ := signed
      exact (ofSizedName?_eq_some_iff _).mpr ⟨standard, n, _, sized, .inr ⟨digits, rfl, padded⟩, text⟩

theorem standard_of_ofName? {name : String} {kind : Elementary} (read : ofName? name = some kind) :
    kind.Standard := by
  rcases (ofName?_eq_some_iff name kind).mp read with named | signed
  · cases named with
    | printed _ standard => exact standard
    | uint | int | byte => simp [Standard]
  · exact signed.1

/-- A text is read as a type exactly when it is a name of that type, unless it is one with a plus sign. -/
theorem names_or_signed_names_read (name : String) (kind : Elementary) :
    (ofName? name = some kind ↔ Named name kind ∨ Signed name kind) ∧
      ((ofName? name = some kind ↔ Named name kind) ↔ ¬ Signed name kind) := by
  refine ⟨ofName?_eq_some_iff name kind, ?_⟩
  rw [ofName?_eq_some_iff]
  constructor
  · intro right signed
    exact not_named_of_plus signed.plus_mem (right.mp (.inr signed))
  · intro unsigned
    exact or_iff_left unsigned

/-- `uint+8` is read as `uint8`, and is no name of it. -/
theorem signed_width_read : ¬ ∀ name kind, ofName? name = some kind ↔ Named name kind := by
  intro right
  have named : Named "uint+8" (.uint 8) := (right _ _).mp (by decide)
  exact not_named_of_plus (by decide) named

end Elementary

end ContractRegistry
