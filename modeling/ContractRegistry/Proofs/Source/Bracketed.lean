import ContractRegistry.Proofs.Outcome
import ContractRegistry.Source.Parser

/-!
Tokens whose brackets belong together.

The readers that skip count one kind of brackets each, or all kinds as one, and stop at certain tokens
outside of them. Tokens in which these brackets are balanced and outside of which none of these tokens
stands are passed as a whole.
-/
namespace ContractRegistry.Source

def kinds (ts : List Token) : List TokenKind :=
  ts.map Token.kind

@[simp] theorem kinds_nil : kinds [] = [] := rfl

@[simp] theorem kinds_cons (t : Token) (ts : List Token) : kinds (t :: ts) = t.kind :: kinds ts := rfl

@[simp] theorem kinds_append (ts us : List Token) : kinds (ts ++ us) = kinds ts ++ kinds us :=
  List.map_append

def onLine (ks : List TokenKind) : List Token :=
  ks.map fun k => ⟨k, 1⟩

@[simp] theorem kinds_onLine (ks : List TokenKind) : kinds (onLine ks) = ks := by
  induction ks with
  | nil => rfl
  | cons k ks ih => exact congrArg (k :: ·) ih

/-- Whether each bracket has its counterpart, from inside `depth` open ones on. Outside of brackets only
`plain` tokens may stand. -/
def balanced (opens closes plain : TokenKind → Bool) : Nat → List TokenKind → Bool
  | depth, [] => depth = 0
  | depth, k :: ks =>
    if opens k then balanced opens closes plain (depth + 1) ks
    else if closes k then depth ≠ 0 && balanced opens closes plain (depth - 1) ks
    else (depth ≠ 0 || plain k) && balanced opens closes plain depth ks

/-- Whether the tokens between two brackets are balanced in them, whatever else they are. -/
def balancedInside (opening closing : Char) (ks : List TokenKind) : Bool :=
  balanced (· = .punct opening) (· = .punct closing) (fun _ => true) 0 ks

/-- Whether parentheses are balanced and none of some tokens stands outside of them. -/
def balancedHead (depth : Nat) (without : List Char) (ks : List TokenKind) : Bool :=
  balanced (· = .punct '(') (· = .punct ')') (fun k => without.all fun c => k ≠ .punct c) depth ks

abbrev headEnds : List Char :=
  ['\x7b', '=', ';']

/-- Whether brackets of all kinds, counted as one, are balanced and no semicolon stands outside. -/
def balancedStatement (depth : Nat) (ks : List TokenKind) : Bool :=
  balanced isOpening isClosing (fun k => k ≠ .punct ';') depth ks

theorem balanced_nil {opens closes plain : TokenKind → Bool} {depth : Nat} :
    balanced opens closes plain depth [] = true ↔ depth = 0 :=
  decide_eq_true_iff

theorem balanced_cons {opens closes plain : TokenKind → Bool} {depth : Nat} {k : TokenKind}
    {ks : List TokenKind} (inside : balanced opens closes plain depth (k :: ks) = true) :
    (opens k = true ∧ balanced opens closes plain (depth + 1) ks = true) ∨
      (opens k = false ∧ closes k = true ∧
        ∃ outer, depth = outer + 1 ∧ balanced opens closes plain outer ks = true) ∨
      (opens k = false ∧ closes k = false ∧ (depth ≠ 0 ∨ plain k = true) ∧
        balanced opens closes plain depth ks = true) := by
  rw [balanced] at inside
  cases opened : opens k
  · cases closed : closes k
    · simpa [opened, closed] using inside
    · cases depth with
      | zero => simp [opened, closed] at inside
      | succ depth => simpa [opened, closed] using inside
  · simpa [opened] using inside

section
variable {rest : List Token}

theorem skipPastClosing_balanced {opening closing : Char} (differ : opening ≠ closing)
    {plain : TokenKind → Bool} {depth : Nat} {ts : List Token}
    (inside : balanced (· = .punct opening) (· = .punct closing) plain depth (kinds ts) = true)
    {last : Token} (closes : last.kind = .punct closing) :
    skipPastClosing opening closing depth (ts ++ last :: rest) = .ok rest := by
  induction ts generalizing depth with
  | nil =>
    obtain rfl := balanced_nil.mp inside
    have other : last.kind ≠ .punct opening := by simp [closes, differ.symm]
    rw [List.nil_append, skipPastClosing.eq_def]
    exact (if_neg other).trans (if_pos closes)
  | cons t ts ih =>
    rw [List.cons_append, skipPastClosing.eq_def]
    dsimp only
    obtain ⟨opened, behind⟩ | ⟨other, closed, outer, rfl, behind⟩ | ⟨other, inner, -, behind⟩ :=
      balanced_cons inside
    · rw [if_pos (of_decide_eq_true opened)]
      exact ih behind
    · rw [if_neg (of_decide_eq_false other), if_pos (of_decide_eq_true closed)]
      exact ih behind
    · rw [if_neg (of_decide_eq_false other), if_neg (of_decide_eq_false inner)]
      exact ih behind

theorem skipParens_balanced {first last : Token} {ts : List Token} (opens : first.kind = .punct '(')
    (inside : balancedInside '(' ')' (kinds ts) = true) (closes : last.kind = .punct ')') :
    skipParens (first :: ts ++ last :: rest) = .ok rest := by
  refine bind_eq_ok.mpr ⟨ts ++ last :: rest, if_pos opens, ?_⟩
  exact skipPastClosing_balanced (by decide) inside closes

theorem upToSemicolon_balanced {depth : Nat} {ts : List Token}
    (inside : balancedStatement depth (kinds ts) = true) {last : Token} (ends : last.kind = .punct ';') :
    upToSemicolon depth (ts ++ last :: rest) = .ok (ts, rest) := by
  induction ts generalizing depth with
  | nil =>
    obtain rfl := balanced_nil.mp inside
    simp [upToSemicolon, ends]
  | cons t ts ih =>
    rw [List.cons_append, upToSemicolon]
    obtain ⟨opened, behind⟩ | ⟨other, closed, outer, rfl, behind⟩ | ⟨other, inner, plain, behind⟩ :=
      balanced_cons inside
    · have goes : ¬ (t.kind = .punct ';' ∧ depth = 0) := by
        rintro ⟨semicolon, -⟩
        simp [semicolon, isOpening] at opened
      rw [if_neg goes, if_pos opened]
      exact bind_eq_ok.mpr ⟨(ts, rest), ih behind, rfl⟩
    · rw [if_neg (by simp), if_neg (by simp [other]), if_pos closed]
      exact bind_eq_ok.mpr ⟨(ts, rest), ih behind, rfl⟩
    · have goes : ¬ (t.kind = .punct ';' ∧ depth = 0) := by
        rintro ⟨semicolon, outside⟩
        exact of_decide_eq_true (plain.resolve_left (not_not_intro outside)) semicolon
      rw [if_neg goes, if_neg (by simp [other]), if_neg (by simp [inner])]
      exact bind_eq_ok.mpr ⟨(ts, rest), ih behind, rfl⟩

theorem skipStatement_balanced {ts : List Token} (inside : balancedStatement 0 (kinds ts) = true)
    {last : Token} (ends : last.kind = .punct ';') :
    skipStatement (ts ++ last :: rest) = .ok rest :=
  bind_eq_ok.mpr ⟨(ts, rest), upToSemicolon_balanced inside ends, rfl⟩

theorem balancedHead_cons {depth : Nat} {without : List Char} {t : Token} {ts : List Token}
    (inside : balancedHead depth without (kinds (t :: ts)) = true) :
    (t.kind = .punct '(' ∧ balancedHead (depth + 1) without (kinds ts) = true) ∨
      (t.kind = .punct ')' ∧ ∃ outer, depth = outer + 1 ∧
        balancedHead outer without (kinds ts) = true) ∨
      (t.kind ≠ .punct '(' ∧ t.kind ≠ .punct ')' ∧
        (depth ≠ 0 ∨ ∀ c ∈ without, t.kind ≠ .punct c) ∧
        balancedHead depth without (kinds ts) = true) := by
  obtain ⟨opened, behind⟩ | ⟨other, closed, outer, rfl, behind⟩ | ⟨other, inner, plain, behind⟩ :=
    balanced_cons inside
  · exact .inl ⟨of_decide_eq_true opened, behind⟩
  · exact .inr (.inl ⟨of_decide_eq_true closed, outer, rfl, behind⟩)
  · exact .inr (.inr ⟨of_decide_eq_false other, of_decide_eq_false inner,
      plain.imp_right fun all => by simpa using all, behind⟩)

theorem skipHeadAndBody_balanced {depth : Nat} {without : List Char} {ts : List Token}
    (brace : '\x7b' ∈ without) (semicolon : ';' ∈ without)
    (inside : balancedHead depth without (kinds ts) = true) :
    skipHeadAndBody depth (ts ++ rest) = skipHeadAndBody 0 rest := by
  induction ts generalizing depth with
  | nil =>
    obtain rfl := balanced_nil.mp inside
    rfl
  | cons t ts ih =>
    rw [List.cons_append]
    obtain ⟨opens, behind⟩ | ⟨closes, outer, rfl, behind⟩ | ⟨opens, closes, plain, behind⟩ :=
      balancedHead_cons inside
    · rw [← ih behind]
      cases depth <;> rw [skipHeadAndBody, if_pos opens]
    · rw [← ih behind, skipHeadAndBody, closes, if_neg (by decide), if_pos rfl]
    · rw [← ih behind]
      cases depth with
      | zero =>
        have only := plain.resolve_left (by simp)
        rw [skipHeadAndBody, if_neg opens, if_neg (only _ brace), if_neg (only _ semicolon)]
      | succ depth => rw [skipHeadAndBody, if_neg opens, if_neg closes]

theorem headEndsInName_balanced {depth : Nat} {without : List Char} {ts : List Token}
    (brace : '\x7b' ∈ without) (equals : '=' ∈ without) (semicolon : ';' ∈ without)
    (inside : balancedHead depth without (kinds ts) = true) (last : Option TokenKind) :
    ∃ last', headEndsInName depth last (ts ++ rest) = headEndsInName 0 last' rest := by
  induction ts generalizing depth last with
  | nil =>
    obtain rfl := balanced_nil.mp inside
    exact ⟨last, rfl⟩
  | cons t ts ih =>
    rw [List.cons_append]
    obtain ⟨opens, behind⟩ | ⟨closes, outer, rfl, behind⟩ | ⟨opens, closes, plain, behind⟩ :=
      balancedHead_cons inside
    · rw [headEndsInName, if_pos opens]
      exact ih behind last
    · rw [headEndsInName, closes, if_neg (by decide), if_pos rfl]
      exact ih behind _
    · rw [headEndsInName, if_neg opens, if_neg closes]
      cases depth with
      | zero =>
        have only := plain.resolve_left (by simp)
        rw [if_neg (by simp), if_neg (only _ brace), if_neg (only _ equals), if_neg (only _ semicolon)]
        exact ih behind _
      | succ depth =>
        rw [if_pos (by simp)]
        exact ih behind last

end

end ContractRegistry.Source
