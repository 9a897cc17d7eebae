import ContractRegistry.Proofs.Source.Lines

/-!
Tokens that are written out with gaps between them.

Tokens may be written with any blanks and comments between them, as long as a blank stands behind each
token that another one follows. The scanner then finds the same tokens again, each on the line that the
newlines before it make. A blank cannot go on a token, so it does not matter that tokens are read as long
as they can be: behind the text of a token the scanner only waits to close it.
-/
namespace ContractRegistry.Source

open Text (isBlank)

/-- What may stand between the quotes of a string literal: a backslash takes the next character with it,
and no newline is let in. -/
inductive QuotedText (quote : Char) : List Char → Prop where
  | nil : QuotedText quote []
  | plain {c : Char} {cs : List Char} (open' : c ≠ quote) (unescaped : c ≠ '\\') (inLine : c ≠ '\n')
      (rest : QuotedText quote cs) : QuotedText quote (c :: cs)
  | escaped {c : Char} {cs : List Char} (inLine : c ≠ '\n') (rest : QuotedText quote cs) :
      QuotedText quote ('\\' :: c :: cs)

inductive Writes : TokenKind → List Char → Prop where
  | word {c : Char} {cs : List Char} (first : isWordStart c = true) (others : ∀ x ∈ cs, isWordChar x = true) :
      Writes (.word (String.ofList (c :: cs))) (c :: cs)
  | number {c : Char} {cs : List Char} (first : isDigit c = true)
      (others : ∀ x ∈ cs, isNumberChar x = true) : Writes (.number (String.ofList (c :: cs))) (c :: cs)
  | string {quote : Char} {content : List Char} (quoted : quote = '"' ∨ quote = '\'')
      (text : QuotedText quote content) : Writes .string (quote :: (content ++ [quote]))
  | arrow : Writes .arrow ['=', '>']
  | punct {c : Char} (visible : isBlank c = false) (noWord : isWordChar c = false) (single : c ≠ '\'')
      (double : c ≠ '"') : Writes (.punct c) [c]

/-- What stands between tokens. A line comment has its newline, and a block comment both its ends. -/
inductive Filler where
  | blank (c : Char)
  | lineComment (text : List Char)
  | blockComment (text : List Char)

namespace Filler

def text : Filler → List Char
  | .blank c => [c]
  | .lineComment text => '/' :: '/' :: (text ++ ['\n'])
  | .blockComment text => '/' :: '*' :: (text ++ ['*', '/'])

def Complete : Filler → Prop
  | .blank c => isBlank c = true
  | .lineComment text => '\n' ∉ text
  | .blockComment text => ¬ ['*', '/'] <:+: text

end Filler

def gapText (gap : List Filler) : List Char :=
  gap.flatMap Filler.text

def OpensBlank (gap : List Filler) : Prop :=
  ∃ c others, gap = .blank c :: others

structure SpacedToken where
  gap : List Filler
  kind : TokenKind
  text : List Char
  complete : ∀ f ∈ gap, f.Complete
  writes : Writes kind text

namespace SpacedToken

def source (s : SpacedToken) : List Char :=
  gapText s.gap ++ s.text

def line (before : List Char) (s : SpacedToken) : Nat :=
  1 + (before ++ gapText s.gap).count '\n'

end SpacedToken

def spacedOut (items : List SpacedToken) (rest : List Filler) : List Char :=
  items.flatMap SpacedToken.source ++ gapText rest

/-- The tokens of what is written behind `before`: each is on the line after the newlines before it. -/
def writtenTokens (before : List Char) : List SpacedToken → List Token
  | [] => []
  | s :: items => ⟨s.kind, s.line before⟩ :: writtenTokens (before ++ s.source) items

/-- A blank stands behind each token that is not the last thing in the source. -/
structure Separated (items : List SpacedToken) (rest : List Filler) : Prop where
  between : ∀ s ∈ items.tail, OpensBlank s.gap
  behind : rest ≠ [] → OpensBlank rest

theorem le_iff_toNat {a c : Char} : a ≤ c ↔ a.toNat ≤ c.toNat :=
  Iff.rfl

theorem blank_ranges {c : Char} (blank : isBlank c = true) :
    c.toNat ≤ 0x20 ∨ 0x85 ≤ c.toNat := by
  simp only [isBlank, Bool.or_eq_true, Bool.and_eq_true, decide_eq_true_eq, beq_iff_eq] at blank
  omega

theorem wordChar_range {c : Char} (word : isWordChar c = true) : 0x24 ≤ c.toNat ∧ c.toNat ≤ 0x7A := by
  simp only [isWordChar, isWordStart, isDigit, Bool.or_eq_true, Bool.and_eq_true, decide_eq_true_eq,
    le_iff_toNat] at word
  rcases word with (((lower | upper) | rfl) | rfl) | digit
  · exact ⟨Nat.le_trans (by decide) lower.1, lower.2⟩
  · exact ⟨Nat.le_trans (by decide) upper.1, Nat.le_trans upper.2 (by decide)⟩
  · decide
  · decide
  · exact ⟨Nat.le_trans (by decide) digit.1, Nat.le_trans digit.2 (by decide)⟩

theorem numberChar_cases {c : Char} (number : isNumberChar c = true) : isWordChar c = true ∨ c = '.' := by
  simp only [isNumberChar, isWordChar, isWordStart, Bool.or_eq_true, decide_eq_true_eq] at number ⊢
  rcases number with (((digit | lower) | upper) | under) | point
  · exact Or.inl (Or.inr digit)
  · exact Or.inl (Or.inl (Or.inl (Or.inl (Or.inl lower))))
  · exact Or.inl (Or.inl (Or.inl (Or.inl (Or.inr upper))))
  · exact Or.inl (Or.inl (Or.inl (Or.inr under)))
  · exact Or.inr point

theorem wordChar_visible {c : Char} (word : isWordChar c = true) : isBlank c = false := by
  have range := wordChar_range word
  cases blank : isBlank c with
  | false => rfl
  | true =>
    have ranges := blank_ranges blank
    omega

theorem blank_noWord {c : Char} (blank : isBlank c = true) : isWordChar c = false := by
  cases word : isWordChar c with
  | false => rfl
  | true => exact absurd (blank.symm.trans (wordChar_visible word)) (by decide)

theorem blank_noNumber {c : Char} (blank : isBlank c = true) : isNumberChar c = false := by
  cases number : isNumberChar c with
  | false => rfl
  | true =>
    rcases numberChar_cases number with word | rfl
    · exact absurd (blank.symm.trans (wordChar_visible word)) (by decide)
    · exact absurd blank (by decide)

theorem wordStart_wordChar {c : Char} (first : isWordStart c = true) : isWordChar c = true := by
  simp [isWordChar, first]

theorem digit_wordChar {c : Char} (digit : isDigit c = true) : isWordChar c = true := by
  simp [isWordChar, digit]

theorem digit_noWordStart {c : Char} (digit : isDigit c = true) : isWordStart c = false := by
  simp only [isDigit, Bool.and_eq_true, decide_eq_true_eq, le_iff_toNat] at digit
  obtain ⟨least, most⟩ := digit
  cases first : isWordStart c with
  | false => rfl
  | true =>
    simp only [isWordStart, Bool.or_eq_true, Bool.and_eq_true, decide_eq_true_eq, le_iff_toNat] at first
    rcases first with ((lower | upper) | rfl) | rfl
    · exact absurd (Nat.le_trans lower.1 most) (by decide)
    · exact absurd (Nat.le_trans upper.1 most) (by decide)
    · exact absurd most (by decide)
    · exact absurd least (by decide)

namespace Scanner

theorem begin_blank (s : Scanner) {c : Char} (blank : isBlank c = true) :
    s.begin c = ⟨.blank, s.line, s.line, s.tokens⟩ := by
  simp [begin, blank]

theorem step_inLine {s t : Scanner} {c : Char} (read : s.read c = .ok t) (inLine : c ≠ '\n') :
    s.step c = .ok t := by
  simp [step, read, bind, Except.bind, inLine]

theorem run_still {s : Scanner} {cs : List Char} (still : ∀ c ∈ cs, s.step c = .ok s) :
    cs.foldlM step s = .ok s := by
  induction cs with
  | nil => rfl
  | cons c cs ih =>
    obtain ⟨first, others⟩ := List.forall_mem_cons.mp still
    rw [List.foldlM_cons, bind_of_eq_ok first]
    exact ih others

def Between (s : Scanner) (tokens : List Token) : Prop :=
  s.mode = .blank ∧ s.tokens = tokens

theorem step_between (s : Scanner) {t : Scanner} {c : Char} {tokens : List Token}
    (read : s.read c = .ok t) (between : t.Between tokens) :
    ∃ next, s.step c = .ok next ∧ next.Between tokens := by
  refine ⟨_, bind_eq_ok.mpr ⟨t, read, rfl⟩, ?_⟩
  split
  · exact between
  · exact between

/-- Inside a block comment that does not end in `text`, nor at its first character with the star before. -/
theorem run_blockComment {text : List Char} {s : Scanner} {star : Bool} (inside : s.mode = .blockComment star)
    (open' : ¬ ['*', '/'] <:+: text) (unended : star = true → text.head? ≠ some '/') :
    ∃ t star', text.foldlM step s = .ok t ∧ t.mode = .blockComment star' ∧ t.tokens = s.tokens := by
  induction text generalizing s star with
  | nil => exact ⟨s, star, rfl, inside, rfl⟩
  | cons c cs ih =>
    have stays : (star && decide (c = '/')) = false := by
      cases star with
      | false => rfl
      | true =>
        have other : c ≠ '/' := fun same => unended rfl (congrArg some same)
        simp [other]
    have read : s.read c = .ok { s with mode := .blockComment (c = '*') } := by
      simp [Scanner.read, inside, stays]
    obtain ⟨next, first⟩ : ∃ next, s.step c = .ok next ∧ next.mode = .blockComment (c = '*') ∧
        next.tokens = s.tokens := by
      refine ⟨_, bind_eq_ok.mpr ⟨_, read, rfl⟩, ?_⟩
      split <;> exact ⟨rfl, rfl⟩
    obtain ⟨first, mode, kept⟩ := first
    have openRest : ¬ ['*', '/'] <:+: cs := fun ends => open' (List.infix_cons ends)
    have unendedRest : decide (c = '*') = true → cs.head? ≠ some '/' := by
      intro same slash
      obtain rfl := of_decide_eq_true same
      cases cs with
      | nil => cases slash
      | cons d ds =>
        obtain rfl := Option.some.inj slash
        exact open' ⟨[], ds, rfl⟩
    obtain ⟨t, star', run, ended, same⟩ := ih mode openRest unendedRest
    refine ⟨t, star', ?_, ended, same.trans kept⟩
    rw [List.foldlM_cons, bind_of_eq_ok first]
    exact run

theorem run_lineComment {text : List Char} (inLine : '\n' ∉ text) (line start : Nat)
    (tokens : List Token) :
    (Filler.lineComment text).text.foldlM step ⟨.blank, line, start, tokens⟩ =
      .ok ⟨.blank, line + 1, line, tokens⟩ := by
  have opening : ['/', '/'].foldlM step ⟨.blank, line, start, tokens⟩ =
      .ok ⟨.lineComment, line, line, tokens⟩ := rfl
  have still : text.foldlM step ⟨.lineComment, line, line, tokens⟩ =
      .ok ⟨.lineComment, line, line, tokens⟩ := by
    apply run_still
    intro c mem
    have other : c ≠ '\n' := fun same => inLine (same ▸ mem)
    apply step_inLine _ other
    simp [Scanner.read, other]
  have split : (Filler.lineComment text).text = ['/', '/'] ++ (text ++ ['\n']) := rfl
  rw [split, List.foldlM_append, bind_of_eq_ok opening, List.foldlM_append, bind_of_eq_ok still]
  rfl

theorem run_filler {f : Filler} (complete : f.Complete) {s : Scanner} {tokens : List Token}
    (between : s.Between tokens) : ∃ t, f.text.foldlM step s = .ok t ∧ t.Between tokens := by
  obtain ⟨mode, line, start, earlier⟩ := s
  obtain ⟨rfl, rfl⟩ := between
  cases f with
  | blank c =>
    have read : read ⟨.blank, line, start, earlier⟩ c = .ok ⟨.blank, line, line, earlier⟩ := by
      simp [Scanner.read, begin_blank _ complete]
    obtain ⟨t, step, ended⟩ := step_between _ read ⟨rfl, rfl⟩
    exact ⟨t, bind_eq_ok.mpr ⟨t, step, rfl⟩, ended⟩
  | lineComment text => exact ⟨_, run_lineComment complete line start earlier, rfl, rfl⟩
  | blockComment text =>
    obtain ⟨⟨_, below, first, kept⟩, star, run, rfl, rfl⟩ :=
      run_blockComment (s := ⟨.blockComment false, line, line, earlier⟩) rfl complete (by simp)
    have closing : ['*', '/'].foldlM step ⟨.blockComment star, below, first, kept⟩ =
        .ok ⟨.blank, below, first, kept⟩ := by
      cases star <;> rfl
    have opening : ['/', '*'].foldlM step ⟨.blank, line, start, kept⟩ =
        .ok ⟨.blockComment false, line, line, kept⟩ := rfl
    have split : (Filler.blockComment text).text = ['/', '*'] ++ (text ++ ['*', '/']) := rfl
    refine ⟨⟨.blank, below, first, kept⟩, ?_, rfl, rfl⟩
    rw [split, List.foldlM_append, bind_of_eq_ok opening, List.foldlM_append, bind_of_eq_ok run]
    exact closing

theorem run_gap {gap : List Filler} (complete : ∀ f ∈ gap, f.Complete) {s : Scanner}
    {tokens : List Token} (between : s.Between tokens) :
    ∃ t, (gapText gap).foldlM step s = .ok t ∧ t.Between tokens := by
  induction gap generalizing s with
  | nil => exact ⟨s, rfl, between⟩
  | cons f fs ih =>
    obtain ⟨first, others⟩ := List.forall_mem_cons.mp complete
    obtain ⟨r, here, behind⟩ := run_filler first between
    obtain ⟨t, run, ended⟩ := ih others behind
    refine ⟨t, ?_, ended⟩
    have split : gapText (f :: fs) = f.text ++ gapText fs := rfl
    rw [split, List.foldlM_append, bind_of_eq_ok here]
    exact run

/-- The scanner has all of a token: the end of the source or a blank closes it as it is. -/
structure Ended (s : Scanner) (tokens : List Token) : Prop where
  closable : s.flush.mode = .blank
  closed : s.flush.tokens = tokens

theorem between_ended {s : Scanner} {tokens : List Token} (between : s.Between tokens) :
    s.Ended tokens := by
  obtain ⟨mode, line, start, earlier⟩ := s
  obtain ⟨rfl, rfl⟩ := between
  exact ⟨rfl, rfl⟩

theorem read_blank {s : Scanner} {tokens : List Token} (ended : s.Ended tokens) {c : Char}
    (blank : isBlank c = true) : ∃ t, s.read c = .ok t ∧ t.Between tokens := by
  have between : (s.flush.begin c).Between tokens := by
    rw [begin_blank _ blank]
    exact ⟨rfl, ended.closed⟩
  refine ⟨s.flush.begin c, ?_, between⟩
  have visible : ∀ d, isBlank d = false → c ≠ d := by
    intro d hidden same
    subst same
    exact absurd (blank.symm.trans hidden) (by decide)
  obtain ⟨mode, line, start, earlier⟩ := s
  have closable := ended.closable
  cases mode with
  | blank => rfl
  | word text => simp [Scanner.read, blank_noWord blank]
  | number text => simp [Scanner.read, blank_noNumber blank]
  | slash => simp [Scanner.read, visible '/' (by decide), visible '*' (by decide)]
  | equals => simp [Scanner.read, visible '>' (by decide)]
  | lineComment => cases closable
  | blockComment star => cases closable
  | string quote escaped => cases closable

theorem finish_ended {s : Scanner} {tokens : List Token} (ended : s.Ended tokens) :
    s.finish = .ok tokens.reverse := by
  obtain ⟨mode, line, start, earlier⟩ := s
  obtain ⟨closable, rfl⟩ := ended
  cases mode with
  | lineComment => cases closable
  | blockComment star => cases closable
  | string quote escaped => cases closable
  | _ => rfl

theorem run_gap_behind {gap : List Filler} (complete : ∀ f ∈ gap, f.Complete) {s : Scanner}
    {tokens : List Token} (ended : s.Ended tokens) (apart : s.Between tokens ∨ OpensBlank gap) :
    ∃ t, (gapText gap).foldlM step s = .ok t ∧ t.Between tokens := by
  rcases apart with between | ⟨c, others, rfl⟩
  · exact run_gap complete between
  · obtain ⟨first, later⟩ := List.forall_mem_cons.mp complete
    obtain ⟨r, read, between⟩ := read_blank ended first
    obtain ⟨next, step, behind⟩ := step_between s read between
    obtain ⟨t, run, done⟩ := run_gap later behind
    refine ⟨t, ?_, done⟩
    have split : gapText (.blank c :: others) = c :: gapText others := rfl
    rw [split, List.foldlM_cons, bind_of_eq_ok step]
    exact run

theorem ne_newline {p : Char → Bool} (inLine : p '\n' = false) {c : Char} (holds : p c = true) : c ≠ '\n' := by
  rintro rfl
  exact absurd (holds.symm.trans inLine) (by decide)

section

variable (line start : Nat) (tokens : List Token)

theorem run_collects {mode : List Char → Mode} {p : Char → Bool} (inLine : p '\n' = false)
    (goesOn : ∀ text c, p c = true →
      read ⟨mode text, line, start, tokens⟩ c = .ok ⟨mode (c :: text), line, start, tokens⟩)
    {cs : List Char} (all : ∀ c ∈ cs, p c = true) (text : List Char) :
    cs.foldlM step ⟨mode text, line, start, tokens⟩ =
      .ok ⟨mode (cs.reverse ++ text), line, start, tokens⟩ := by
  induction cs generalizing text with
  | nil => rfl
  | cons c cs ih =>
    obtain ⟨first, others⟩ := List.forall_mem_cons.mp all
    have here := step_inLine (goesOn text c first) (ne_newline inLine first)
    rw [List.foldlM_cons, bind_of_eq_ok here, ih others, List.reverse_cons, List.append_assoc]
    rfl

theorem run_begun {mode : List Char → Mode} {p : Char → Bool} (inLine : p '\n' = false)
    (goesOn : ∀ text c, p c = true →
      read ⟨mode text, line, line, tokens⟩ c = .ok ⟨mode (c :: text), line, line, tokens⟩)
    {c : Char} {cs : List Char} (all : ∀ x ∈ c :: cs, p x = true)
    (begun : read ⟨.blank, line, start, tokens⟩ c = .ok ⟨mode [c], line, line, tokens⟩) :
    (c :: cs).foldlM step ⟨.blank, line, start, tokens⟩ =
      .ok ⟨mode (cs.reverse ++ [c]), line, line, tokens⟩ := by
  obtain ⟨first, others⟩ := List.forall_mem_cons.mp all
  rw [List.foldlM_cons, bind_of_eq_ok (step_inLine begun (ne_newline inLine first))]
  exact run_collects line line tokens inLine goesOn others [c]

theorem run_word {c : Char} {cs : List Char} (first : isWordStart c = true)
    (others : ∀ x ∈ cs, isWordChar x = true) :
    (c :: cs).foldlM step ⟨.blank, line, start, tokens⟩ =
      .ok ⟨.word (cs.reverse ++ [c]), line, line, tokens⟩ := by
  have word := wordStart_wordChar first
  apply run_begun line start tokens (p := isWordChar) (by decide)
  · intro text x word
    simp [Scanner.read, word]
  · exact List.forall_mem_cons.mpr ⟨word, others⟩
  · simp [Scanner.read, begin, wordChar_visible word, first]

theorem run_number {c : Char} {cs : List Char} (first : isDigit c = true)
    (others : ∀ x ∈ cs, isNumberChar x = true) :
    (c :: cs).foldlM step ⟨.blank, line, start, tokens⟩ =
      .ok ⟨.number (cs.reverse ++ [c]), line, line, tokens⟩ := by
  have number : isNumberChar c = true := by
    simp [isNumberChar, first]
  apply run_begun line start tokens (p := isNumberChar) (by decide)
  · intro text x number
    simp [Scanner.read, number]
  · exact List.forall_mem_cons.mpr ⟨number, others⟩
  · simp [Scanner.read, begin, wordChar_visible (digit_wordChar first), digit_noWordStart first, first]

theorem run_quoted {quote : Char} (quoted : quote ≠ '\\') {content : List Char}
    (text : QuotedText quote content) :
    content.foldlM step ⟨.string quote false, line, start, tokens⟩ =
      .ok ⟨.string quote false, line, start, tokens⟩ := by
  induction text with
  | nil => rfl
  | @plain c cs open' unescaped inLine _ ih =>
    have read : read ⟨.string quote false, line, start, tokens⟩ c =
        .ok ⟨.string quote false, line, start, tokens⟩ := by
      simp [Scanner.read, open', unescaped, inLine]
    rw [List.foldlM_cons, bind_of_eq_ok (step_inLine read inLine)]
    exact ih
  | @escaped c cs inLine _ ih =>
    have backslash : read ⟨.string quote false, line, start, tokens⟩ '\\' =
        .ok ⟨.string quote true, line, start, tokens⟩ := by
      simp [Scanner.read, Ne.symm quoted]
    have read : read ⟨.string quote true, line, start, tokens⟩ c =
        .ok ⟨.string quote false, line, start, tokens⟩ := by
      simp [Scanner.read, inLine]
    rw [List.foldlM_cons, bind_of_eq_ok (step_inLine backslash (by decide)), List.foldlM_cons,
      bind_of_eq_ok (step_inLine read inLine)]
    exact ih

theorem run_string {quote : Char} (quoted : quote = '"' ∨ quote = '\'') {content : List Char}
    (text : QuotedText quote content) :
    (quote :: (content ++ [quote])).foldlM step ⟨.blank, line, start, tokens⟩ =
      .ok ⟨.blank, line, line, ⟨.string, line⟩ :: tokens⟩ := by
  have other : quote ≠ '\\' := by
    rcases quoted with rfl | rfl <;> decide
  have opening : step ⟨.blank, line, start, tokens⟩ quote =
      .ok ⟨.string quote false, line, line, tokens⟩ := by
    rcases quoted with rfl | rfl <;> rfl
  have closing : step ⟨.string quote false, line, line, tokens⟩ quote =
      .ok ⟨.blank, line, line, ⟨.string, line⟩ :: tokens⟩ := by
    rcases quoted with rfl | rfl <;> rfl
  rw [List.foldlM_cons, bind_of_eq_ok opening, List.foldlM_append,
    bind_of_eq_ok (run_quoted line line tokens other text), List.foldlM_cons, bind_of_eq_ok closing]
  rfl

theorem run_punct {c : Char} (visible : isBlank c = false) (noWord : isWordChar c = false)
    (single : c ≠ '\'') (double : c ≠ '"') :
    ∃ t, [c].foldlM step ⟨.blank, line, start, tokens⟩ = .ok t ∧
      t.Ended (⟨.punct c, line⟩ :: tokens) := by
  have other : c ≠ '\n' := by
    rintro rfl
    exact absurd visible (by decide)
  obtain ⟨noStart, noDigit⟩ : isWordStart c = false ∧ isDigit c = false := by
    simpa [isWordChar] using noWord
  by_cases slash : c = '/'
  · subst slash
    exact ⟨_, rfl, rfl, rfl⟩
  by_cases equals : c = '='
  · subst equals
    exact ⟨_, rfl, rfl, rfl⟩
  have read : read ⟨.blank, line, start, tokens⟩ c =
      .ok ⟨.blank, line, line, ⟨.punct c, line⟩ :: tokens⟩ := by
    simp [Scanner.read, begin, visible, noStart, noDigit, single, double, slash, equals, emit]
  refine ⟨⟨.blank, line, line, ⟨.punct c, line⟩ :: tokens⟩, ?_, rfl, rfl⟩
  rw [List.foldlM_cons, bind_of_eq_ok (step_inLine read other)]
  rfl

end

theorem run_text {kind : TokenKind} {text : List Char} (writes : Writes kind text) {s : Scanner}
    {tokens : List Token} (between : s.Between tokens) :
    ∃ t, text.foldlM step s = .ok t ∧ t.Ended (⟨kind, s.line⟩ :: tokens) := by
  obtain ⟨mode, line, start, earlier⟩ := s
  obtain ⟨rfl, rfl⟩ := between
  cases writes with
  | word first others =>
    refine ⟨_, run_word line start earlier first others, rfl, ?_⟩
    simp [flush, emit]
  | number first others =>
    refine ⟨_, run_number line start earlier first others, rfl, ?_⟩
    simp [flush, emit]
  | string quoted text => exact ⟨_, run_string line start earlier quoted text, rfl, rfl⟩
  | arrow => exact ⟨_, rfl, rfl, rfl⟩
  | punct visible noWord single double =>
    exact run_punct line start earlier visible noWord single double

/-- A gap and the text behind it. The line of the token is that of the end of the gap. -/
theorem run_spaced (item : SpacedToken) {s : Scanner} {before : List Char} {tokens : List Token}
    (ended : s.Ended tokens) (apart : s.Between tokens ∨ OpensBlank item.gap)
    (line : s.line = 1 + before.count '\n') :
    ∃ t, item.source.foldlM step s = .ok t ∧ t.Ended (⟨item.kind, item.line before⟩ :: tokens) ∧
      t.line = 1 + (before ++ item.source).count '\n' := by
  obtain ⟨r, gap, between⟩ := run_gap_behind item.complete ended apart
  obtain ⟨t, text, closed⟩ := run_text item.writes between
  have run : item.source.foldlM step s = .ok t := by
    rw [SpacedToken.source, List.foldlM_append, bind_of_eq_ok gap]
    exact text
  have below := run_line gap
  have bottom := run_line run
  rw [line] at below bottom
  have atGap : r.line = item.line before := by
    rw [SpacedToken.line, List.count_append]
    omega
  rw [atGap] at closed
  refine ⟨t, run, closed, ?_⟩
  rw [List.count_append]
  omega

theorem run_items {items : List SpacedToken} {s : Scanner} {before : List Char} {tokens : List Token}
    (ended : s.Ended tokens) (first : s.Between tokens ∨ ∀ item ∈ items.head?, OpensBlank item.gap)
    (apart : ∀ item ∈ items.tail, OpensBlank item.gap) (line : s.line = 1 + before.count '\n') :
    ∃ t, (items.flatMap SpacedToken.source).foldlM step s = .ok t ∧
      t.Ended ((writtenTokens before items).reverse ++ tokens) := by
  induction items generalizing s before tokens with
  | nil => exact ⟨s, rfl, ended⟩
  | cons item items ih =>
    have opens : s.Between tokens ∨ OpensBlank item.gap := first.imp_right fun all => all item rfl
    obtain ⟨r, here, closed, below⟩ := run_spaced item ended opens line
    have next : ∀ other ∈ items.head?, OpensBlank other.gap :=
      fun other mem => apart other (List.mem_of_mem_head? mem)
    have later : ∀ other ∈ items.tail, OpensBlank other.gap :=
      fun other mem => apart other (List.mem_of_mem_tail mem)
    obtain ⟨t, run, done⟩ := ih closed (Or.inr next) later below
    refine ⟨t, ?_, ?_⟩
    · rw [List.flatMap_cons, List.foldlM_append, bind_of_eq_ok here]
      exact run
    · simpa [writtenTokens] using done

theorem run_all {items : List SpacedToken} (apart : ∀ item ∈ items.tail, OpensBlank item.gap) :
    ∃ t, (items.flatMap SpacedToken.source).foldlM step .initial = .ok t ∧
      t.Ended (writtenTokens [] items).reverse := by
  have start : Scanner.initial.Between [] := ⟨rfl, rfl⟩
  have top : Scanner.initial.line = 1 + ([] : List Char).count '\n' := rfl
  obtain ⟨t, run, done⟩ := run_items (between_ended start) (Or.inl start) apart top
  rw [List.append_nil] at done
  exact ⟨t, run, done⟩

theorem read_error {s : Scanner} {c : Char} {e : SourceError} (run : s.read c = .error e) :
    e = .unterminatedString s.start := by
  unfold Scanner.read at run
  split at run
  all_goals repeat' split at run
  all_goals cases run
  rfl

theorem run_error {cs : List Char} {s : Scanner} {e : SourceError} (run : cs.foldlM step s = .error e) :
    ∃ line, e = .unterminatedString line := by
  induction cs generalizing s with
  | nil => cases run
  | cons c cs ih =>
    rw [List.foldlM_cons] at run
    cases first : s.step c with
    | ok r =>
      rw [bind_of_eq_ok first] at run
      exact ih run
    | error cause =>
      rw [first] at run
      cases run
      cases read : s.read c with
      | ok r =>
        rw [step, bind_of_eq_ok read] at first
        cases first
      | error cause =>
        rw [step, read] at first
        cases first
        exact ⟨s.start, read_error read⟩

theorem finish_error {s : Scanner} {e : SourceError} (run : s.finish = .error e) :
    e = .unterminatedComment s.start ∨ e = .unterminatedString s.start := by
  unfold finish at run
  split at run
  · cases run
    exact Or.inl rfl
  · cases run
    exact Or.inr rfl
  · cases run

end Scanner

theorem tokenize_error {source : List Char} {e : SourceError} (run : tokenize source = .error e) :
    ∃ line, e = .unterminatedComment line ∨ e = .unterminatedString line := by
  unfold tokenize at run
  cases scanned : source.foldlM Scanner.step .initial with
  | ok s =>
    rw [bind_of_eq_ok scanned] at run
    exact ⟨s.start, Scanner.finish_error run⟩
  | error cause =>
    rw [scanned] at run
    cases run
    obtain ⟨line, rfl⟩ := Scanner.run_error scanned
    exact ⟨line, Or.inr rfl⟩

/-- Tokens that are spaced out are read back, each on its line, and a source that is not read has a
comment or a string literal without an end. -/
theorem spaced_tokens_read (items : List SpacedToken) (rest : List Filler)
    (complete : ∀ f ∈ rest, f.Complete) (separated : Separated items rest) :
    tokenize (spacedOut items rest) = .ok (writtenTokens [] items) ∧
      ∀ source e, tokenize source = .error e →
        ∃ line, e = .unterminatedComment line ∨ e = .unterminatedString line := by
  constructor
  · obtain ⟨s, run, ended⟩ := Scanner.run_all separated.between
    have closed : ∃ t, (gapText rest).foldlM Scanner.step s = .ok t ∧
        t.Ended (writtenTokens [] items).reverse := by
      by_cases none_behind : rest = []
      · subst none_behind
        exact ⟨s, rfl, ended⟩
      · obtain ⟨t, gap, between⟩ :=
          Scanner.run_gap_behind complete ended (Or.inr (separated.behind none_behind))
        exact ⟨t, gap, Scanner.between_ended between⟩
    obtain ⟨t, gap, done⟩ := closed
    have whole : (spacedOut items rest).foldlM Scanner.step .initial = .ok t := by
      rw [spacedOut, List.foldlM_append, bind_of_eq_ok run]
      exact gap
    rw [tokenize, bind_of_eq_ok whole, Scanner.finish_ended done, List.reverse_reverse]
  · intro source e run
    exact tokenize_error run

/-- A division by a number, with comments that hold quotes and a literal that holds a comment's start. -/
def quotientItems : List SpacedToken :=
  [⟨[.blockComment [' ', '"', '\n', '*']], .word (String.ofList ['x']), ['x'],
      by simp only [List.forall_mem_singleton, Filler.Complete]; decide,
      .word (by decide) (by simp)⟩,
    ⟨[.blank ' ', .lineComment ['\'', '/', '*']], .arrow, ['=', '>'],
      by simp [Filler.Complete, isBlank], .arrow⟩,
    ⟨[.blank '\t'], .string, ['"', '\\', '"', '/', '/', '"'], by simp [Filler.Complete, isBlank],
      .string (Or.inl rfl) (.escaped (by decide)
        (.plain (by decide) (by decide) (by decide) (.plain (by decide) (by decide) (by decide) .nil)))⟩,
    ⟨[.blank ' '], .punct '/', ['/'], by simp [Filler.Complete, isBlank],
      .punct (by decide) (by decide) (by decide) (by decide)⟩,
    ⟨[.blank '\n', .blockComment []], .number (String.ofList ['1', 'e', '3']), ['1', 'e', '3'],
      by simp [Filler.Complete, isBlank], .number (by decide) (List.all_eq_true.mp rfl)⟩]

def quotientEnd : List Filler :=
  [.blank ' ', .lineComment ['x']]

theorem quotient_read :
    (∀ f ∈ quotientEnd, f.Complete) ∧ Separated quotientItems quotientEnd ∧
      spacedOut quotientItems quotientEnd =
        "/* \"\n**/x //'/*\n=>\t\"\\\"//\" /\n/**/1e3 //x\n".toList ∧
      tokenize (spacedOut quotientItems quotientEnd) =
        .ok [⟨.word "x", 2⟩, ⟨.arrow, 3⟩, ⟨.string, 3⟩, ⟨.punct '/', 3⟩, ⟨.number "1e3", 4⟩] := by
  have complete : ∀ f ∈ quotientEnd, f.Complete := by
    simp [quotientEnd, Filler.Complete, isBlank]
  have separated : Separated quotientItems quotientEnd := by
    constructor
    · simp [quotientItems, OpensBlank]
    · intro _
      exact ⟨_, _, rfl⟩
  exact ⟨complete, separated, rfl, (spaced_tokens_read quotientItems quotientEnd complete separated).1⟩

end ContractRegistry.Source
