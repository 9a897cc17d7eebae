import ContractRegistry.Proofs.Json.Written
import ContractRegistry.Text.Blank
import Mathlib.Data.List.TakeWhile

/-!
Where a JSON value ends in its text.

Every reader leaves an end of what it is given, and what is read as an object has a brace before that end.
So the text of an object with no blanks around it begins and ends with its braces. A text with nothing but
blanks, on the other hand, is no JSON at all.
-/
namespace ContractRegistry.Json

open Text.Utf8 (Piece)
open Grammar (Reader skipSpace)

def Takes {α : Type} (read : Reader α) : Prop :=
  ∀ {ps a rest}, read ps = some (a, rest) → rest <:+ ps

theorem skipSpace_suffix (ps : List Piece) : skipSpace ps <:+ ps :=
  List.dropWhile_suffix _

theorem suffix_of_skipSpace {p : Piece} {rest ps : List Piece} (begins : skipSpace ps = p :: rest) :
    rest <:+ ps := by
  have space := skipSpace_suffix ps
  rw [begins] at space
  exact (List.suffix_cons p rest).trans space

theorem takes_string : Takes Grammar.string := by
  intro ps content rest read
  fun_induction Grammar.string ps generalizing content with
  | case1 =>
    cases read
    exact List.suffix_cons _ _
  | case2 a b c d more ih =>
    obtain ⟨_, -, read⟩ := Option.bind_eq_some_iff.mp read
    obtain ⟨_, -, read⟩ := Option.bind_eq_some_iff.mp read
    obtain ⟨_, -, read⟩ := Option.bind_eq_some_iff.mp read
    obtain ⟨_, -, read⟩ := Option.bind_eq_some_iff.mp read
    obtain ⟨_, inner, read⟩ := Option.bind_eq_some_iff.mp read
    cases read
    exact (ih inner).trans ⟨[.char '\\', .char 'u', a, b, c, d], rfl⟩
  | case3 e more _ ih =>
    obtain ⟨_, -, read⟩ := Option.bind_eq_some_iff.mp read
    obtain ⟨_, inner, read⟩ := Option.bind_eq_some_iff.mp read
    cases read
    exact (ih inner).trans ⟨[.char '\\', .char e], rfl⟩
  | case4 => contradiction
  | case5 p more _ _ _ _ ih =>
    obtain ⟨_, -, read⟩ := Option.bind_eq_some_iff.mp read
    obtain ⟨_, inner, read⟩ := Option.bind_eq_some_iff.mp read
    cases read
    exact (ih inner).trans (List.suffix_cons p more)
  | case6 => contradiction

theorem digits_suffix (ps : List Piece) : (Grammar.digits ps).2 <:+ ps := by
  fun_induction Grammar.digits ps with
  | case1 => exact List.suffix_rfl
  | case2 p more _ _ _ _ read ih =>
    rw [read] at ih
    exact ih.trans (List.suffix_cons p more)
  | case3 => exact List.suffix_rfl

theorem takes_someDigits : Takes Grammar.someDigits := by
  intro ps ds rest read
  have suffix := digits_suffix ps
  unfold Grammar.someDigits at read
  split at read
  · contradiction
  · next digits =>
    cases read
    rwa [digits] at suffix

theorem takes_whole : Takes Grammar.whole := by
  intro ps ds rest read
  unfold Grammar.whole at read
  split at read
  · cases read
    exact List.suffix_cons _ _
  · exact takes_someDigits read

theorem takes_fraction : Takes Grammar.fraction := by
  intro ps ds rest read
  unfold Grammar.fraction at read
  split at read
  · exact (takes_someDigits read).trans (List.suffix_cons _ _)
  · cases read
    exact List.suffix_rfl

theorem takes_exponentDigits : Takes Grammar.exponentDigits := by
  intro ps e rest read
  unfold Grammar.exponentDigits at read
  split at read
  all_goals
    obtain ⟨_, digits, read⟩ := Option.bind_eq_some_iff.mp read
    cases read
  · exact (takes_someDigits digits).trans (List.suffix_cons _ _)
  · exact (takes_someDigits digits).trans (List.suffix_cons _ _)
  · exact takes_someDigits digits

theorem takes_exponent : Takes Grammar.exponent := by
  intro ps e rest read
  unfold Grammar.exponent at read
  split at read
  · obtain ⟨_, digits, read⟩ := Option.bind_eq_some_iff.mp read
    cases read
    exact (takes_exponentDigits digits).trans (List.suffix_cons _ _)
  · obtain ⟨_, digits, read⟩ := Option.bind_eq_some_iff.mp read
    cases read
    exact (takes_exponentDigits digits).trans (List.suffix_cons _ _)
  · cases read
    exact List.suffix_rfl

theorem takes_unsigned (negative : Bool) : Takes (Grammar.unsigned negative) := by
  intro ps n rest read
  obtain ⟨_, whole, read⟩ := Option.bind_eq_some_iff.mp read
  obtain ⟨_, fraction, read⟩ := Option.bind_eq_some_iff.mp read
  obtain ⟨_, exponent, read⟩ := Option.bind_eq_some_iff.mp read
  cases read
  exact (takes_exponent exponent).trans ((takes_fraction fraction).trans (takes_whole whole))

theorem takes_numeral : Takes Grammar.numeral := by
  intro ps n rest read
  unfold Grammar.numeral at read
  split at read
  · exact (takes_unsigned true read).trans (List.suffix_cons _ _)
  · exact takes_unsigned false read

theorem takes_word (w : List Char) (t : Tree) : Takes (Grammar.word w t) := by
  intro ps a rest read
  unfold Grammar.word at read
  split at read
  · cases read
    exact List.drop_suffix _ _
  · contradiction

/-- What the readers of values leave, within so many steps. Behind the members of an object there was its
closing brace. -/
structure TakesWithin (steps : Nat) : Prop where
  value : Takes (Grammar.value steps)
  items : Takes (Grammar.items steps)
  members : ∀ {ps ms rest}, Grammar.members steps ps = some (ms, rest) → .char '\x7d' :: rest <:+ ps

section
variable {steps : Nat} (within : TakesWithin steps)
include within

theorem object_suffix {ps rest : List Piece} {t : Tree}
    (begins : skipSpace ps = .char '\x7b' :: rest) {more : List Piece}
    (read : Grammar.value (steps + 1) ps = some (t, more)) : .char '\x7d' :: more <:+ rest := by
  rw [Grammar.value, begins] at read
  simp only at read
  split at read
  · next closes =>
    cases read
    rw [← closes]
    exact skipSpace_suffix _
  · obtain ⟨_, members, read⟩ := Option.bind_eq_some_iff.mp read
    cases read
    exact (within.members members).trans (skipSpace_suffix _)

theorem takes_value : Takes (Grammar.value (steps + 1)) := by
  intro ps t rest read
  have whole := read
  rw [Grammar.value] at read
  split at read
  · next begins => exact (takes_word _ _ read).trans (suffix_of_skipSpace begins)
  · next begins => exact (takes_word _ _ read).trans (suffix_of_skipSpace begins)
  · next begins => exact (takes_word _ _ read).trans (suffix_of_skipSpace begins)
  · next begins =>
    obtain ⟨_, content, read⟩ := Option.bind_eq_some_iff.mp read
    cases read
    exact (takes_string content).trans (suffix_of_skipSpace begins)
  · next begins =>
    split at read
    · next closes =>
      cases read
      exact (suffix_of_skipSpace closes).trans (suffix_of_skipSpace begins)
    · obtain ⟨_, items, read⟩ := Option.bind_eq_some_iff.mp read
      cases read
      exact (within.items items).trans ((skipSpace_suffix _).trans (suffix_of_skipSpace begins))
  · next begins =>
    have closed := object_suffix within begins whole
    exact (List.suffix_cons _ _).trans (closed.trans (suffix_of_skipSpace begins))
  · obtain ⟨_, numeral, read⟩ := Option.bind_eq_some_iff.mp read
    cases read
    exact (takes_numeral numeral).trans (skipSpace_suffix ps)

theorem takes_items : Takes (Grammar.items (steps + 1)) := by
  intro ps ts rest read
  obtain ⟨⟨t, more⟩, item, read⟩ := Option.bind_eq_some_iff.mp read
  have first := within.value item
  simp only at read
  split at read
  · next closes =>
    cases read
    exact (suffix_of_skipSpace closes).trans first
  · next comma =>
    obtain ⟨_, others, read⟩ := Option.bind_eq_some_iff.mp read
    cases read
    exact (within.items others).trans ((suffix_of_skipSpace comma).trans first)
  · contradiction

theorem members_suffix {ps rest : List Piece} {ms : List (List Piece × Tree)}
    (read : Grammar.members (steps + 1) ps = some (ms, rest)) : .char '\x7d' :: rest <:+ ps := by
  rw [Grammar.members] at read
  split at read
  · next opens =>
    obtain ⟨⟨key, behind⟩, string, read⟩ := Option.bind_eq_some_iff.mp read
    have name := (takes_string string).trans (suffix_of_skipSpace opens)
    simp only at read
    split at read
    · next colon =>
      obtain ⟨⟨t, more⟩, item, read⟩ := Option.bind_eq_some_iff.mp read
      have own := (within.value item).trans ((suffix_of_skipSpace colon).trans name)
      simp only at read
      split at read
      · next closes =>
        cases read
        exact closes ▸ (skipSpace_suffix more).trans own
      · next comma =>
        obtain ⟨_, others, read⟩ := Option.bind_eq_some_iff.mp read
        cases read
        exact (within.members others).trans ((suffix_of_skipSpace comma).trans own)
      · contradiction
    · contradiction
  · contradiction

end

theorem takesWithin (steps : Nat) : TakesWithin steps := by
  induction steps with
  | zero => exact ⟨nofun, nofun, nofun⟩
  | succ steps ih => exact ⟨takes_value ih, takes_items ih, members_suffix ih⟩

theorem not_digit_of_blank {c : Char} (blank : Text.isBlank c = true) : Grammar.digit? (.char c) = none := by
  refine if_neg fun within => ?_
  have least : 48 ≤ c.toNat := within.1
  have most : c.toNat ≤ 57 := within.2
  simp only [Text.isBlank, Bool.or_eq_true, Bool.and_eq_true, decide_eq_true_eq, beq_iff_eq] at blank
  omega

theorem numeral_blank {c : Char} (blank : Text.isBlank c = true) (ps : List Piece) :
    Grammar.numeral (.char c :: ps) = none := by
  have minus : c ≠ '-' := by
    rintro rfl
    contradiction
  have zero : c ≠ '0' := by
    rintro rfl
    contradiction
  have whole : Grammar.whole (.char c :: ps) = none := by
    rw [Grammar.whole.eq_2 _ (by simp [zero]), Grammar.someDigits, Grammar.digits, not_digit_of_blank blank]
  rw [Grammar.numeral.eq_2 _ (by simp [minus]), Grammar.unsigned, whole]
  rfl

theorem value_blanks {ps : List Piece} (blank : ∀ p ∈ ps, ∃ c, p = .char c ∧ Text.isBlank c = true)
    (steps : Nat) : Grammar.value steps ps = none := by
  cases steps with
  | zero => rfl
  | succ steps =>
    cases begins : skipSpace ps with
    | nil =>
      rw [Grammar.value, begins]
      rfl
    | cons p rest =>
      have member : p ∈ ps := (List.dropWhile_suffix _).subset (begins ▸ List.mem_cons_self)
      obtain ⟨c, rfl, own⟩ := blank p member
      have other (d : Char) (visible : Text.isBlank d = false) : c ≠ d := by
        rintro rfl
        rw [own] at visible
        contradiction
      simp [Grammar.value, begins, numeral_blank own, other 'n' (by decide), other 't' (by decide),
        other 'f' (by decide), other '"' (by decide), other '[' (by decide), other '\x7b' (by decide)]

theorem ofText?_blank {text : String} (blank : Text.isAllBlank text.toList = true) :
    Value.ofText? text = none := by
  have pieces : ∀ p ∈ piecesOf text, ∃ c, p = .char c ∧ Text.isBlank c = true := by
    intro p member
    obtain ⟨c, here, rfl⟩ := List.mem_map.mp member
    exact ⟨c, rfl, Text.isAllBlank_iff.mp blank c here⟩
  rw [Value.ofText?, Grammar.document?, value_blanks pieces]
  rfl

theorem exists_brace {steps : Nat} {ps rest : List Piece} {ms : List (List Piece × Tree)}
    (read : Grammar.value (steps + 1) ps = some (.object ms, rest)) :
    ∃ more, skipSpace ps = .char '\x7b' :: more := by
  have word (w : List Char) (t : Tree) (other : ∀ ms, t ≠ .object ms) {qs : List Piece}
      (read : Grammar.word w t qs = some (.object ms, rest)) : False := by
    unfold Grammar.word at read
    split at read
    · exact other ms (congrArg Prod.fst (Option.some.inj read))
    · contradiction
  rw [Grammar.value] at read
  split at read
  · exact (word _ _ (fun _ same => Tree.noConfusion same) read).elim
  · exact (word _ _ (fun _ same => Tree.noConfusion same) read).elim
  · exact (word _ _ (fun _ same => Tree.noConfusion same) read).elim
  · obtain ⟨_, -, read⟩ := Option.bind_eq_some_iff.mp read
    cases read
  · split at read
    · cases read
    · obtain ⟨_, -, read⟩ := Option.bind_eq_some_iff.mp read
      cases read
  · next begins => exact ⟨_, begins⟩
  · obtain ⟨_, -, read⟩ := Option.bind_eq_some_iff.mp read
    cases read

theorem isBlank_of_isSpace {c : Char} (space : Grammar.isSpace (.char c) = true) :
    Text.isBlank c = true := by
  simp only [Grammar.isSpace, Bool.or_eq_true, decide_eq_true_eq] at space
  rcases space with ((rfl | rfl) | rfl) | rfl <;> decide

structure Bare (cs : List Char) : Prop where
  front : ∀ c, cs.head? = some c → Text.isBlank c = false
  back : ∀ c, cs.getLast? = some c → Text.isBlank c = false

theorem skipSpace_bare {cs : List Char} (bare : Bare cs) :
    skipSpace (cs.map .char) = cs.map .char := by
  cases cs with
  | nil => rfl
  | cons c cs =>
    refine skipSpace_of_not_space _ (Bool.eq_false_iff.mpr fun space => ?_)
    have blank := isBlank_of_isSpace space
    rw [bare.front c rfl] at blank
    contradiction

/-- What is left behind a value in a text without blanks at its end is nothing, if it is space. -/
theorem nothing_behind {cs : List Char} (bare : Bare cs) {before rest : List Piece}
    (parts : cs.map .char = before ++ rest) (space : skipSpace rest = []) : rest = [] := by
  rcases List.eq_nil_or_concat rest with none | ⟨front, p, rfl⟩
  · exact none
  · have last : (cs.map Piece.char).getLast? = some p := by simp [parts]
    rw [List.getLast?_map] at last
    obtain ⟨c, here, rfl⟩ := Option.map_eq_some_iff.mp last
    have blank := isBlank_of_isSpace (List.dropWhile_eq_nil_iff.mp space (.char c) (by simp))
    rw [bare.back c here] at blank
    contradiction

theorem object_text {text : String} {ms : List (List Piece × Tree)}
    (document : Grammar.document? (piecesOf text) = some (.object ms)) (bare : Bare text.toList) :
    ∃ inside, text.toList = '\x7b' :: (inside ++ ['\x7d']) := by
  obtain ⟨⟨t, rest⟩, read, ends⟩ := Option.bind_eq_some_iff.mp document
  simp only at ends
  split at ends
  · next space =>
    cases ends
    obtain ⟨more, begins⟩ := exists_brace read
    obtain ⟨before, closes⟩ := object_suffix (takesWithin _) begins read
    rw [piecesOf, skipSpace_bare bare, ← closes, ← List.cons_append] at begins
    have parts : text.toList.map .char = (.char '\x7b' :: before ++ [.char '\x7d']) ++ rest := by
      simpa using begins
    obtain rfl := nothing_behind bare parts space
    obtain ⟨c, cs, written, opens, inner⟩ := List.map_eq_cons_iff.mp begins
    obtain ⟨inside, last, rfl, -, closes⟩ := List.map_eq_append_iff.mp inner
    obtain ⟨d, none, rfl, brace, empty⟩ := List.map_eq_cons_iff.mp closes
    rw [List.map_eq_nil_iff.mp empty, Piece.char.inj brace, Piece.char.inj opens] at written
    exact ⟨inside, written⟩
  · contradiction

end ContractRegistry.Json
