import ContractRegistry.Json.Grammar
import ContractRegistry.Json.Printer
import ContractRegistry.Proofs.Numeral
import Mathlib.Data.Option.Basic

/-!
Strings and integers as they are written, and that they are read as they were meant.
-/
namespace ContractRegistry.Json

open Text.Utf8 (Piece)
open ContractRegistry.Numeral (exists_toDigits head_toDigits isDigit_of_mem_toDigits)

def escaped (text : String) : List Piece :=
  (text.toList.flatMap escapeChar).map .char

theorem hexDigit?_char (n : Nat) (small : n < 16) :
    Tree.hexDigit? (.char (Numeral.hexChar n)) = some n :=
  Numeral.hexDigit?_hexChar n small

theorem numericEscape_eq (c : Char) :
    (numericEscape c).map Piece.char =
      [.char '\\', .char 'u', .char (Numeral.hexChar (c.toNat / 16 / 16 / 16 % 16)),
        .char (Numeral.hexChar (c.toNat / 16 / 16 % 16)),
        .char (Numeral.hexChar (c.toNat / 16 % 16)), .char (Numeral.hexChar (c.toNat % 16))] := by
  rfl

theorem text?_numericEscape (c : Char) (control : c.toNat < 0x20) (ps : List Piece) :
    Tree.text? ((numericEscape c).map .char ++ ps) = (Tree.text? ps).map (c :: ·) := by
  have value : Tree.unit (.char (Numeral.hexChar (c.toNat / 16 / 16 / 16 % 16)))
      (.char (Numeral.hexChar (c.toNat / 16 / 16 % 16)))
      (.char (Numeral.hexChar (c.toNat / 16 % 16)))
      (.char (Numeral.hexChar (c.toNat % 16))) = c.toNat := by
    have digit (n : Nat) := hexDigit?_char (n % 16) (Nat.mod_lt n (by decide))
    simp only [Tree.unit, digit, Option.getD_some]
    omega
  have small : c.toNat < 0xD800 := by omega
  rw [numericEscape_eq]
  simp only [List.cons_append, List.nil_append]
  rw [Tree.text?.eq_def]
  simp only [value, small, true_or, if_true, Char.ofNat_toNat]
  cases Tree.text? ps <;> rfl

theorem string_numericEscape (c : Char) (ps : List Piece) :
    Grammar.string ((numericEscape c).map .char ++ ps) =
      (Grammar.string ps).map fun r => ((numericEscape c).map .char ++ r.1, r.2) := by
  have digit (n : Nat) := hexDigit?_char (n % 16) (Nat.mod_lt n (by decide))
  rw [numericEscape_eq]
  simp only [List.cons_append, List.nil_append]
  rw [Grammar.string.eq_2, digit, digit, digit, digit]
  cases Grammar.string ps <;> rfl

/-- The two ways in which a character is written: a backslash and what follows it, or the character
itself, which is neither a quote nor a backslash nor a control character. -/
theorem escapeChar_cases (c : Char) :
    (∃ e, escapeChar c = ['\\', e] ∧ e ≠ 'u' ∧ Grammar.isShortEscape e = true ∧
      Tree.shortEscape e = c) ∨
    (escapeChar c = numericEscape c ∧ c.toNat < 0x20) ∨
    (escapeChar c = [c] ∧ c ≠ '"' ∧ c ≠ '\\' ∧ 0x20 ≤ c.toNat) := by
  by_cases short : c ∈ ['"', '\\', '\x08', '\x0c', '\n', '\r', '\t']
  · left
    simp only [List.mem_cons, List.not_mem_nil, or_false] at short
    rcases short with rfl | rfl | rfl | rfl | rfl | rfl | rfl <;>
      exact ⟨_, rfl, by decide, by decide, by decide⟩
  right
  simp only [List.mem_cons, List.not_mem_nil, or_false, not_or] at short
  obtain ⟨quote, backslash, backspace, feed, line, carriage, tab⟩ := short
  have neither : escapeChar c = if c.toNat < 0x20 then numericEscape c else [c] := by
    simp [escapeChar, quote, backslash, backspace, feed, line, carriage, tab]
  by_cases control : c.toNat < 0x20
  · exact .inl ⟨by rw [neither, if_pos control], control⟩
  · exact .inr ⟨by rw [neither, if_neg control], quote, backslash, by omega⟩

theorem string_escapeChar (c : Char) (ps : List Piece) :
    Grammar.string ((escapeChar c).map .char ++ ps) =
      (Grammar.string ps).map fun r => ((escapeChar c).map .char ++ r.1, r.2) := by
  rcases escapeChar_cases c with ⟨e, written, other, known, -⟩ | ⟨written, -⟩ |
    ⟨written, quote, backslash, plain⟩
  · rw [written]
    simp only [List.map_cons, List.map_nil, List.cons_append, List.nil_append]
    rw [Grammar.string.eq_3 e ps (by intros; contradiction)]
    have passed : guard (Grammar.isShortEscape e = true) = some () := if_pos known
    rw [passed]
    cases Grammar.string ps <;> rfl
  · rw [written, string_numericEscape]
  · rw [written]
    simp only [List.map_cons, List.map_nil, List.cons_append, List.nil_append]
    rw [Grammar.string.eq_5 _ _ (by simp [quote]) (by simp [backslash]) (by simp [backslash])
      (by simp [backslash])]
    have passed : guard (Grammar.isPlain (.char c) = true) = some () :=
      if_pos (by simpa [Grammar.isPlain] using plain)
    rw [passed]
    cases Grammar.string ps <;> rfl

theorem text?_escapeChar (c : Char) (ps : List Piece) :
    Tree.text? ((escapeChar c).map .char ++ ps) = (Tree.text? ps).map (c :: ·) := by
  rcases escapeChar_cases c with ⟨e, written, other, -, means⟩ | ⟨written, control⟩ |
    ⟨written, -, backslash, -⟩
  · rw [written]
    simp only [List.map_cons, List.map_nil, List.cons_append, List.nil_append]
    rw [Tree.text?.eq_3 e ps (by intros; contradiction), means]
    cases Tree.text? ps <;> rfl
  · rw [written, text?_numericEscape c control]
  · rw [written]
    simp only [List.map_cons, List.map_nil, List.cons_append, List.nil_append]
    rw [Tree.text?.eq_4 c ps (by simp [backslash]) (by simp [backslash])]
    cases Tree.text? ps <;> rfl

theorem string_escaped (text : String) (rest : List Piece) :
    Grammar.string (escaped text ++ .char '"' :: rest) = some (escaped text, rest) := by
  unfold escaped
  induction text.toList with
  | nil => rfl
  | cons c cs ih =>
    rw [List.flatMap_cons, List.map_append, List.append_assoc, string_escapeChar, ih]
    rfl

theorem text?_escaped (text : String) : Tree.text? (escaped text) = some text.toList := by
  unfold escaped
  induction text.toList with
  | nil => rfl
  | cons c cs ih => rw [List.flatMap_cons, List.map_append, text?_escapeChar, ih]; rfl

theorem contentText?_escaped (text : String) : Tree.contentText? (escaped text) = some text := by
  rw [Tree.contentText?, text?_escaped, Option.map_some, String.ofList_toList]

theorem piecesOf_quote (text : String) :
    piecesOf (quote text) = .char '"' :: (escaped text ++ [.char '"']) := by
  simp [piecesOf, quote, escaped]

def decimals (n : Nat) : List Nat :=
  (Nat.toDigits 10 n).map fun c => c.toNat - '0'.toNat

def Numeral.ofInt (n : Int) : Numeral :=
  ⟨decide (n < 0), decimals n.natAbs, [], none⟩

def Apart : List Piece → Prop
  | [] => True
  | p :: _ => Grammar.digit? p = none ∧ p ∉ [.char '.', .char 'e', .char 'E']

theorem digits_append (cs : List Char) (rest : List Piece) (all : ∀ c ∈ cs, c.isDigit = true)
    (apart : Apart rest) :
    Grammar.digits (cs.map .char ++ rest) = (cs.map fun c => c.toNat - '0'.toNat, rest) := by
  induction cs with
  | nil =>
    cases rest with
    | nil => rfl
    | cons p rest => simp [Grammar.digits, apart.1]
  | cons c cs ih =>
    have first := ContractRegistry.Numeral.decimalDigit?_of_isDigit c (all c (by simp))
    have others := ih fun d member => all d (by simp [member])
    simp [Grammar.digits, Grammar.digit?, first, others]

theorem whole_toDigits (n : Nat) (rest : List Piece) (apart : Apart rest) :
    Grammar.whole ((Nat.toDigits 10 n).map .char ++ rest) = some (decimals n, rest) := by
  by_cases zero : n = 0
  · subst zero
    rfl
  have all := digits_append _ rest (isDigit_of_mem_toDigits (n := n)) apart
  have head : (Nat.toDigits 10 n).head? ≠ some '0' := fun head => zero (head_toDigits n head)
  obtain ⟨c, cs, written, -⟩ := exists_toDigits n
  rw [written] at all head
  have other : c ≠ '0' := by simpa using head
  rw [decimals, written]
  rw [List.map_cons, List.cons_append] at all ⊢
  rw [Grammar.whole.eq_2 _ (by simp [other]), Grammar.someDigits, all]
  rfl

theorem fraction_apart (rest : List Piece) (apart : Apart rest) :
    Grammar.fraction rest = some ([], rest) := by
  refine Grammar.fraction.eq_2 rest ?_
  rintro more rfl
  simp [Apart] at apart

theorem exponent_apart (rest : List Piece) (apart : Apart rest) :
    Grammar.exponent rest = some (none, rest) := by
  refine Grammar.exponent.eq_3 rest ?_ ?_ <;>
    · rintro more rfl
      simp [Apart] at apart

theorem unsigned_toDigits (negative : Bool) (n : Nat) (rest : List Piece) (apart : Apart rest) :
    Grammar.unsigned negative ((Nat.toDigits 10 n).map .char ++ rest) =
      some (⟨negative, decimals n, [], none⟩, rest) := by
  simp [Grammar.unsigned, whole_toDigits n rest apart, fraction_apart rest apart,
    exponent_apart rest apart]

theorem piecesOf_toString (n : Int) :
    piecesOf (toString n) =
      (if n < 0 then [.char '-'] else []) ++ (Nat.toDigits 10 n.natAbs).map .char := by
  rw [piecesOf, Int.toString_eq_repr, Int.repr_eq_if]
  by_cases negative : n < 0
  · have upper : ¬ 0 ≤ n := by omega
    have same : (-n).toNat = n.natAbs := by omega
    simp [negative, upper, same]
  · have upper : 0 ≤ n := by omega
    have same : n.toNat = n.natAbs := by omega
    simp [negative, upper, same]

theorem escaped_toString (n : Nat) : escaped (toString n) = piecesOf (toString (n : Int)) := by
  have plain : ∀ c ∈ Nat.toDigits 10 n, escapeChar c = [c] := by
    intro c member
    have digit := isDigit_of_mem_toDigits c member
    have other (d : Char) (plain : d.isDigit = false) : c ≠ d := by
      rintro rfl
      rw [digit] at plain
      contradiction
    have above : ¬ c.toNat < 0x20 := by
      have least : '0'.toNat ≤ c.toNat := (ContractRegistry.Numeral.bounds_of_isDigit c digit).1
      have zero : '0'.toNat = 0x30 := rfl
      omega
    simp [escapeChar, other '"' (by decide), other '\\' (by decide), other '\x08' (by decide),
      other '\x0c' (by decide), other '\n' (by decide), other '\r' (by decide),
      other '\t' (by decide), above]
  have same : ∀ cs : List Char, (∀ c ∈ cs, escapeChar c = [c]) → cs.flatMap escapeChar = cs := by
    intro cs plain
    induction cs with
    | nil => rfl
    | cons c cs ih =>
      rw [List.flatMap_cons, plain c List.mem_cons_self,
        ih fun d member => plain d (List.mem_cons_of_mem c member)]
      rfl
  rw [piecesOf_toString, if_neg (by omega), escaped, Nat.toString_eq_repr, Nat.toList_repr,
    same _ plain]
  rfl

theorem numeral_toString (n : Int) (rest : List Piece) (apart : Apart rest) :
    Grammar.numeral (piecesOf (toString n) ++ rest) = some (Numeral.ofInt n, rest) := by
  rw [piecesOf_toString]
  have read (negative : Bool) := unsigned_toDigits negative n.natAbs rest apart
  by_cases negative : n < 0
  · simp [negative, Grammar.numeral, read, Numeral.ofInt]
  · have unsigned : ∀ more, (Nat.toDigits 10 n.natAbs).map Piece.char ++ rest ≠ .char '-' :: more := by
      intro more signed
      obtain ⟨c, cs, written, digit⟩ := exists_toDigits n.natAbs
      have minus : c = '-' := by
        rw [written, List.map_cons, List.cons_append] at signed
        exact Piece.char.inj (List.cons.inj signed).1
      rw [minus] at digit
      exact absurd digit (by decide)
    rw [if_neg negative, List.nil_append, Grammar.numeral.eq_2 _ unsigned, read]
    simp [Numeral.ofInt, negative]

theorem le_foldl_digits (ds : List Nat) (value : Nat) :
    value ≤ ds.foldl (fun n d => n * 10 + d) value := by
  induction ds generalizing value with
  | nil => exact Nat.le_refl value
  | cons d ds ih =>
    have more := ih (value * 10 + d)
    simp only [List.foldl_cons]
    omega

theorem absorb_of_lt (ds : List Nat) (value : Nat)
    (small : ds.foldl (fun n d => n * 10 + d) value < ContractRegistry.Numeral.limit64) :
    Numeral.absorb value ds = (ds.foldl (fun n d => n * 10 + d) value, 0) := by
  induction ds generalizing value with
  | nil => rfl
  | cons d ds ih =>
    have below : value * 10 + d < ContractRegistry.Numeral.limit64 :=
      Nat.lt_of_le_of_lt (le_foldl_digits ds _) small
    rw [Numeral.absorb, if_pos below, ih _ small]
    rfl

theorem foldl_decimals (n : Nat) : (decimals n).foldl (fun n d => n * 10 + d) 0 = n := by
  have same := Nat.ofDigitChars_ten_toDigits (n := n)
  rw [Nat.ofDigitChars_eq_foldl] at same
  rw [decimals, List.foldl_map]
  simpa [Nat.mul_comm] using same

theorem number?_ofInt (n : Int) (least : -(signBit : Int) ≤ n)
    (most : n < ContractRegistry.Numeral.limit64) : (Numeral.ofInt n).number? = some (.integer n) := by
  have small : n.natAbs < ContractRegistry.Numeral.limit64 := by
    simp only [signBit, ContractRegistry.Numeral.limit64] at *
    omega
  have taken : Numeral.absorb 0 (decimals n.natAbs) = (n.natAbs, 0) := by
    rw [absorb_of_lt _ 0 (by rwa [foldl_decimals]), foldl_decimals]
  by_cases negative : n < 0
  · have size : n.natAbs ≠ 0 ∧ n.natAbs ≤ signBit := by omega
    have same : -(n.natAbs : Int) = n := by omega
    simp only [Numeral.number?, Numeral.ofInt, taken, negative, size, same, decide_true, and_self,
      ne_eq, not_false_eq_true, if_true]
  · have same : (n.natAbs : Int) = n := by omega
    simp only [Numeral.number?, Numeral.ofInt, taken, negative, same, decide_false, and_self,
      if_true, Bool.false_eq_true, if_false]

end ContractRegistry.Json
