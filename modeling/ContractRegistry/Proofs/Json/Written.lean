import ContractRegistry.Proofs.Json.Lexeme

/-!
A value written with one item a line is read as the shape of that value, whatever comes behind it.
-/
namespace ContractRegistry.Json

open Text.Utf8 (Piece)
open Grammar (skipSpace)

namespace Value

inductive Whole : Value → Prop where
  | null : Whole .null
  | bool (truth : Bool) : Whole (.bool truth)
  | integer (n : Int) : Whole (.number (.integer n))
  | string (text : String) : Whole (.string text)
  | array (items : List Value) (each : ∀ v ∈ items, Whole v) : Whole (.array items)
  | object (members : List (String × Value)) (each : ∀ m ∈ members, Whole m.2) :
    Whole (.object members)

mutual

/-- The shape in which a value is written. Only whole values are written here: a double has no shape
of its own. -/
def tree : Value → Tree
  | .null => .null
  | .bool truth => .bool truth
  | .number (.integer n) => .number (.ofInt n)
  | .number (.real _) => .null
  | .string text => .string (escaped text)
  | .array items => .array (trees items)
  | .object members => .object (memberTrees members)

def trees : List Value → List Tree
  | [] => []
  | v :: vs => tree v :: trees vs

def memberTrees : List (String × Value) → List (List Piece × Tree)
  | [] => []
  | (key, v) :: ms => (escaped key, tree v) :: memberTrees ms

end

theorem trees_eq_map (vs : List Value) : trees vs = vs.map tree := by
  induction vs with
  | nil => rfl
  | cons v vs ih => rw [trees, ih, List.map_cons]

theorem memberTrees_eq_map (ms : List (String × Value)) :
    memberTrees ms = ms.map fun m => (escaped m.1, m.2.tree) := by
  induction ms with
  | nil => rfl
  | cons m ms ih => rw [memberTrees, ih, List.map_cons]

end Value

theorem piecesOf_append (s t : String) : piecesOf (s ++ t) = piecesOf s ++ piecesOf t := by
  simp [piecesOf]

theorem skipSpace_of_not_space {p : Piece} (ps : List Piece) (solid : Grammar.isSpace p = false) :
    skipSpace (p :: ps) = p :: ps := by
  simp [skipSpace, solid]

theorem skipSpace_newline (level : Nat) (ps : List Piece) :
    skipSpace (piecesOf (newline level) ++ ps) = skipSpace ps := by
  have blanks : ∀ n, skipSpace (List.replicate n (.char ' ') ++ ps) = skipSpace ps := by
    intro n
    induction n with
    | zero => rfl
    | succ n ih => rw [List.replicate_succ, List.cons_append, ← ih]; rfl
  have same := blanks (2 * level)
  simpa [piecesOf, newline, skipSpace, Grammar.isSpace] using same

theorem skipSpace_skipSpace (ps : List Piece) : skipSpace (skipSpace ps) = skipSpace ps := by
  unfold skipSpace
  induction ps with
  | nil => rfl
  | cons p ps ih => by_cases space : Grammar.isSpace p <;> simp [space, ih]

theorem value_skipSpace (steps : Nat) (ps : List Piece) :
    Grammar.value steps (skipSpace ps) = Grammar.value steps ps := by
  cases steps with
  | zero => rfl
  | succ steps => rw [Grammar.value, skipSpace_skipSpace, Grammar.value]

theorem value_blank (steps : Nat) (ps : List Piece) :
    Grammar.value steps (.char ' ' :: ps) = Grammar.value steps ps := by
  have same : skipSpace (.char ' ' :: ps) = skipSpace ps := rfl
  rw [← value_skipSpace, same, value_skipSpace]

theorem items_skipSpace (steps : Nat) (ps : List Piece) :
    Grammar.items steps (skipSpace ps) = Grammar.items steps ps := by
  cases steps with
  | zero => rfl
  | succ steps => rw [Grammar.items, value_skipSpace, Grammar.items]

theorem members_skipSpace (steps : Nat) (ps : List Piece) :
    Grammar.members steps (skipSpace ps) = Grammar.members steps ps := by
  cases steps with
  | zero => rfl
  | succ steps => rw [Grammar.members, skipSpace_skipSpace, Grammar.members]

theorem length_newline (level : Nat) : 1 ≤ (piecesOf (newline level)).length := by
  simp [piecesOf, newline]

section
variable (level : Nat)

theorem piecesOf_array (v : Value) (vs : List Value) :
    piecesOf (Value.prettyAt level (.array (v :: vs))) =
      .char '[' :: (piecesOf (Value.prettyItems (level + 1) (v :: vs)) ++
        (piecesOf (newline level) ++ [.char ']'])) := by
  simp [Value.prettyAt, piecesOf]

theorem piecesOf_lastItem (v : Value) :
    piecesOf (Value.prettyItems level [v]) =
      piecesOf (newline level) ++ piecesOf (v.prettyAt level) := by
  rw [Value.prettyItems, piecesOf_append]

theorem piecesOf_item (v w : Value) (vs : List Value) :
    piecesOf (Value.prettyItems level (v :: w :: vs)) =
      piecesOf (newline level) ++ (piecesOf (v.prettyAt level) ++
        .char ',' :: piecesOf (Value.prettyItems level (w :: vs))) := by
  simp [Value.prettyItems, piecesOf]

theorem piecesOf_object (m : String × Value) (ms : List (String × Value)) :
    piecesOf (Value.prettyAt level (.object (m :: ms))) =
      .char '\x7b' :: (piecesOf (Value.prettyMembers (level + 1) (m :: ms)) ++
        (piecesOf (newline level) ++ [.char '\x7d'])) := by
  simp [Value.prettyAt, piecesOf]

theorem piecesOf_lastMember (key : String) (v : Value) :
    piecesOf (Value.prettyMembers level [(key, v)]) =
      piecesOf (newline level) ++ .char '"' :: (escaped key ++
        .char '"' :: .char ':' :: .char ' ' :: piecesOf (v.prettyAt level)) := by
  simp [Value.prettyMembers, piecesOf, quote, escaped]

theorem piecesOf_member (key : String) (v : Value) (m : String × Value)
    (ms : List (String × Value)) :
    piecesOf (Value.prettyMembers level ((key, v) :: m :: ms)) =
      piecesOf (newline level) ++ .char '"' :: (escaped key ++
        .char '"' :: .char ':' :: .char ' ' :: (piecesOf (v.prettyAt level) ++
          .char ',' :: piecesOf (Value.prettyMembers level (m :: ms)))) := by
  simp [Value.prettyMembers, piecesOf, quote, escaped]

end

section
variable {steps : Nat} {ps rest more : List Piece} {t : Tree}

theorem value_close : Grammar.value steps (.char ']' :: ps) = none := by
  cases steps with
  | zero => rfl
  | succ steps =>
    have start := skipSpace_of_not_space (p := .char ']') ps (by decide)
    rw [Grammar.value, start]
    rfl

theorem items_close : Grammar.items steps (.char ']' :: ps) = none := by
  cases steps with
  | zero => rfl
  | succ steps => rw [Grammar.items, value_close]; rfl

theorem members_close : Grammar.members steps (.char '\x7d' :: ps) = none := by
  cases steps with
  | zero => rfl
  | succ steps =>
    have start := skipSpace_of_not_space (p := .char '\x7d') ps (by decide)
    rw [Grammar.members, start]
    rfl

theorem value_array {ts : List Tree} (read : Grammar.items steps ps = some (ts, rest)) :
    Grammar.value (steps + 1) (.char '[' :: ps) = some (.array ts, rest) := by
  -- A bracket that closes at once could not have been read as an item.
  have filled : ∀ qs, skipSpace ps ≠ .char ']' :: qs := by
    intro qs closed
    rw [← items_skipSpace, closed, items_close] at read
    contradiction
  have start := skipSpace_of_not_space (p := .char '[') ps (by decide)
  rw [Grammar.value, start]
  simp only
  rw [items_skipSpace, read]
  rfl

theorem items_last (read : Grammar.value steps ps = some (t, more))
    (close : skipSpace more = .char ']' :: rest) :
    Grammar.items (steps + 1) ps = some ([t], rest) := by
  simp [Grammar.items, read, close]

theorem items_more {ts : List Tree} (read : Grammar.value steps ps = some (t, .char ',' :: more))
    (others : Grammar.items steps more = some (ts, rest)) :
    Grammar.items (steps + 1) ps = some (t :: ts, rest) := by
  have comma := skipSpace_of_not_space (p := .char ',') more (by decide)
  simp [Grammar.items, read, comma, others]

theorem value_object {ts : List (List Piece × Tree)}
    (read : Grammar.members steps ps = some (ts, rest)) :
    Grammar.value (steps + 1) (.char '\x7b' :: ps) = some (.object ts, rest) := by
  have filled : ∀ qs, skipSpace ps ≠ .char '\x7d' :: qs := by
    intro qs closed
    rw [← members_skipSpace, closed, members_close] at read
    contradiction
  have start := skipSpace_of_not_space (p := .char '\x7b') ps (by decide)
  rw [Grammar.value, start]
  simp only
  rw [members_skipSpace, read]
  rfl

theorem members_last (key : String) (read : Grammar.value steps ps = some (t, more))
    (close : skipSpace more = .char '\x7d' :: rest) :
    Grammar.members (steps + 1)
        (.char '"' :: (escaped key ++ .char '"' :: .char ':' :: .char ' ' :: ps)) =
      some ([(escaped key, t)], rest) := by
  have quote (qs : List Piece) := skipSpace_of_not_space (p := .char '"') qs (by decide)
  have colon (qs : List Piece) := skipSpace_of_not_space (p := .char ':') qs (by decide)
  simp [Grammar.members, quote, string_escaped, colon, value_blank, read, close]

theorem members_more {ts : List (List Piece × Tree)} (key : String)
    (read : Grammar.value steps ps = some (t, .char ',' :: more))
    (others : Grammar.members steps more = some (ts, rest)) :
    Grammar.members (steps + 1)
        (.char '"' :: (escaped key ++ .char '"' :: .char ':' :: .char ' ' :: ps)) =
      some ((escaped key, t) :: ts, rest) := by
  have quote (qs : List Piece) := skipSpace_of_not_space (p := .char '"') qs (by decide)
  have colon (qs : List Piece) := skipSpace_of_not_space (p := .char ':') qs (by decide)
  have comma (qs : List Piece) := skipSpace_of_not_space (p := .char ',') qs (by decide)
  simp [Grammar.members, quote, string_escaped, colon, value_blank, read, comma, others]

theorem value_string (text : String) :
    Grammar.value (steps + 1) (.char '"' :: (escaped text ++ .char '"' :: ps)) =
      some (.string (escaped text), ps) := by
  have start := skipSpace_of_not_space (p := .char '"') (escaped text ++ .char '"' :: ps) (by decide)
  simp [Grammar.value, start, string_escaped]

theorem exists_toString (n : Int) :
    ∃ c cs, piecesOf (toString n) = .char c :: cs ∧ (c.isDigit = true ∨ c = '-') := by
  obtain ⟨c, cs, digits, digit⟩ := ContractRegistry.Numeral.exists_toDigits n.natAbs
  rw [piecesOf_toString, digits]
  by_cases negative : n < 0
  · exact ⟨'-', _, by rw [if_pos negative]; rfl, .inr rfl⟩
  · exact ⟨c, _, by rw [if_neg negative]; rfl, .inl digit⟩

theorem value_integer (n : Int) (apart : Apart ps) :
    Grammar.value (steps + 1) (piecesOf (toString n) ++ ps) = some (.number (.ofInt n), ps) := by
  have read := numeral_toString n ps apart
  obtain ⟨c, cs, written, digit⟩ := exists_toString n
  have other (d : Char) (plain : d.isDigit = false ∧ d ≠ '-') : c ≠ d := by
    rintro rfl
    rcases digit with digit | minus
    · rw [plain.1] at digit; contradiction
    · exact plain.2 minus
  have solid : Grammar.isSpace (.char c) = false := by
    simp [Grammar.isSpace, other ' ' (by decide), other '\t' (by decide), other '\n' (by decide),
      other '\r' (by decide)]
  rw [written, List.cons_append] at read ⊢
  have start := skipSpace_of_not_space (cs ++ ps) solid
  simp [Grammar.value, start, read, other 'n' (by decide), other 't' (by decide),
    other 'f' (by decide), other '"' (by decide), other '[' (by decide), other '\x7b' (by decide)]

end

/-- However deep it stands, the value is read back, within as many steps as it has pieces. -/
def Reread (v : Value) : Prop :=
  ∀ level steps rest, Apart rest → (piecesOf (v.prettyAt level)).length ≤ steps →
    Grammar.value steps (piecesOf (v.prettyAt level) ++ rest) = some (v.tree, rest)

theorem apart_comma (rest : List Piece) : Apart (.char ',' :: rest) := by
  simp [Apart, Grammar.digit?]
  decide

theorem apart_newline (level : Nat) (rest : List Piece) :
    Apart (piecesOf (newline level) ++ rest) := by
  simp [Apart, piecesOf, newline, Grammar.digit?]
  decide

theorem items_prettyItems (v : Value) (vs : List Value) (each : ∀ w ∈ v :: vs, Reread w)
    (level outer steps : Nat) (rest : List Piece)
    (enough : (piecesOf (Value.prettyItems level (v :: vs))).length ≤ steps) :
    Grammar.items steps (piecesOf (Value.prettyItems level (v :: vs)) ++
      (piecesOf (newline outer) ++ .char ']' :: rest)) = some ((v :: vs).map Value.tree, rest) := by
  -- Each item begins with a line break, so that there is a step for the item besides those for its text.
  have line := length_newline level
  induction vs generalizing v steps with
  | nil =>
    have first := each v (by simp) level
    rw [piecesOf_lastItem, List.length_append] at enough
    obtain ⟨steps, rfl⟩ : ∃ n, steps = n + 1 := ⟨steps - 1, by omega⟩
    rw [piecesOf_lastItem, List.append_assoc, ← items_skipSpace, skipSpace_newline, items_skipSpace]
    exact items_last (first steps _ (apart_newline outer _) (by omega))
      (by rw [skipSpace_newline]; rfl)
  | cons w vs ih =>
    have first := each v (by simp) level
    have others := ih w fun u member => each u (List.mem_cons_of_mem v member)
    rw [piecesOf_item] at enough ⊢
    simp only [List.length_append, List.length_cons, List.append_assoc, List.cons_append] at enough ⊢
    obtain ⟨steps, rfl⟩ : ∃ n, steps = n + 1 := ⟨steps - 1, by omega⟩
    rw [← items_skipSpace, skipSpace_newline, items_skipSpace]
    exact items_more (first steps _ (apart_comma _) (by omega)) (others steps (by omega))

theorem members_prettyMembers (m : String × Value) (ms : List (String × Value))
    (each : ∀ e ∈ m :: ms, Reread e.2) (level outer steps : Nat) (rest : List Piece)
    (enough : (piecesOf (Value.prettyMembers level (m :: ms))).length ≤ steps) :
    Grammar.members steps (piecesOf (Value.prettyMembers level (m :: ms)) ++
      (piecesOf (newline outer) ++ .char '\x7d' :: rest)) =
      some ((m :: ms).map fun e => (escaped e.1, e.2.tree), rest) := by
  have line := length_newline level
  induction ms generalizing m steps with
  | nil =>
    obtain ⟨key, v⟩ := m
    have first : Reread v := each (key, v) (by simp)
    rw [piecesOf_lastMember] at enough ⊢
    simp only [List.length_append, List.length_cons, List.append_assoc, List.cons_append] at enough ⊢
    obtain ⟨steps, rfl⟩ : ∃ n, steps = n + 1 := ⟨steps - 1, by omega⟩
    rw [← members_skipSpace, skipSpace_newline, members_skipSpace]
    exact members_last key (first level steps _ (apart_newline outer _) (by omega))
      (by rw [skipSpace_newline]; rfl)
  | cons e ms ih =>
    have others := ih e fun u member => each u (List.mem_cons_of_mem m member)
    obtain ⟨key, v⟩ := m
    have first : Reread v := each (key, v) (by simp)
    rw [piecesOf_member] at enough ⊢
    simp only [List.length_append, List.length_cons, List.append_assoc, List.cons_append] at enough ⊢
    obtain ⟨steps, rfl⟩ : ∃ n, steps = n + 1 := ⟨steps - 1, by omega⟩
    rw [← members_skipSpace, skipSpace_newline, members_skipSpace]
    exact members_more key (first level steps _ (apart_comma _) (by omega)) (others steps (by omega))

theorem exists_step {p : Piece} {text ps : List Piece} {steps : Nat} (written : text = p :: ps)
    (enough : text.length ≤ steps) : ∃ n, steps = n + 1 := by
  rw [written, List.length_cons] at enough
  exact ⟨steps - 1, by omega⟩

theorem reread_literal {v : Value} (p : Piece) (ps : List Piece)
    (text : ∀ level, piecesOf (v.prettyAt level) = p :: ps)
    (read : ∀ steps rest, Grammar.value (steps + 1) (p :: ps ++ rest) = some (v.tree, rest)) :
    Reread v := by
  intro level steps rest _ enough
  obtain ⟨steps, rfl⟩ := exists_step (text level) enough
  rw [text, read]

theorem reread_array (items : List Value) (each : ∀ v ∈ items, Reread v) :
    Reread (.array items) := by
  cases items with
  | nil =>
    exact reread_literal (.char '[') [.char ']'] (by simp [Value.prettyAt, piecesOf])
      fun _ _ => rfl
  | cons v vs =>
    intro level steps rest apart enough
    obtain ⟨steps, rfl⟩ := exists_step (piecesOf_array level v vs) enough
    rw [piecesOf_array] at enough ⊢
    simp only [List.length_append, List.length_cons, List.append_assoc, List.cons_append,
      List.nil_append] at enough ⊢
    rw [Value.tree, Value.trees_eq_map]
    exact value_array (items_prettyItems v vs each (level + 1) level steps rest (by omega))

theorem reread_object (members : List (String × Value)) (each : ∀ m ∈ members, Reread m.2) :
    Reread (.object members) := by
  cases members with
  | nil =>
    exact reread_literal (.char '\x7b') [.char '\x7d'] (by simp [Value.prettyAt, piecesOf])
      fun _ _ => rfl
  | cons m ms =>
    intro level steps rest apart enough
    obtain ⟨steps, rfl⟩ := exists_step (piecesOf_object level m ms) enough
    rw [piecesOf_object] at enough ⊢
    simp only [List.length_append, List.length_cons, List.append_assoc, List.cons_append,
      List.nil_append] at enough ⊢
    rw [Value.tree, Value.memberTrees_eq_map]
    exact value_object (members_prettyMembers m ms each (level + 1) level steps rest (by omega))

theorem reread_whole {v : Value} (whole : v.Whole) : Reread v := by
  induction whole with
  | null =>
    exact reread_literal (.char 'n') ("ull".toList.map .char) (by simp [Value.prettyAt, piecesOf])
      fun _ _ => rfl
  | bool truth =>
    cases truth with
    | false =>
      exact reread_literal (.char 'f') ("alse".toList.map .char)
        (by simp [Value.prettyAt, boolText, piecesOf]) fun _ _ => rfl
    | true =>
      exact reread_literal (.char 't') ("rue".toList.map .char)
        (by simp [Value.prettyAt, boolText, piecesOf]) fun _ _ => rfl
  | integer n =>
    intro level steps rest apart enough
    have text : Value.prettyAt level (.number (.integer n)) = toString n := by
      rw [Value.prettyAt, Number.text]
    rw [text] at enough ⊢
    obtain ⟨c, cs, written, -⟩ := exists_toString n
    obtain ⟨steps, rfl⟩ := exists_step written enough
    exact value_integer n apart
  | string text =>
    intro level steps rest apart enough
    rw [Value.prettyAt, piecesOf_quote] at enough ⊢
    obtain ⟨steps, rfl⟩ := exists_step rfl enough
    simp only [List.append_assoc, List.cons_append, List.nil_append]
    exact value_string text
  | array items _ ih => exact reread_array items ih
  | object members _ ih => exact reread_object members ih

theorem document?_pretty {v : Value} (whole : v.Whole) :
    Grammar.document? (piecesOf v.pretty) = some v.tree := by
  have read := reread_whole whole 0 (Grammar.stepsFor (piecesOf v.pretty)) [] trivial
    (by rw [Grammar.stepsFor, Value.pretty]; omega)
  rw [List.append_nil] at read
  rw [Grammar.document?, Value.pretty] at *
  simp [read, skipSpace]

end ContractRegistry.Json
