import ContractRegistry.Proofs.Source.Stacked

/-!
Tokens of a text that stands behind another.

A text that can be read by itself leaves no string and no block comment open. The end of its last line
closes all else, so that the scanner begins the next text as if it were the first, only further down.
-/
namespace ContractRegistry.Source

namespace Scanner

def behind (k : Nat) (earlier : List Token) (s : Scanner) : Scanner :=
  ⟨s.mode, s.line + k, s.start + k, s.tokens.map (Token.down k) ++ earlier⟩

section
variable (k : Nat) (earlier : List Token)

theorem flush_behind (s : Scanner) : (s.behind k earlier).flush = s.flush.behind k earlier := by
  obtain ⟨mode, line, start, tokens⟩ := s
  cases mode <;> rfl

theorem begin_behind (s : Scanner) (c : Char) :
    (s.behind k earlier).begin c = (s.begin c).behind k earlier := by
  unfold begin
  repeat' split
  all_goals rfl

theorem flush_begin_behind (s : Scanner) (c : Char) :
    (s.behind k earlier).flush.begin c = (s.flush.begin c).behind k earlier := by
  rw [flush_behind, begin_behind]

theorem ok_behind {s s' t : Scanner} (same : s' = s.behind k earlier)
    (run : (Except.ok s : Parsed Scanner) = .ok t) :
    (Except.ok s' : Parsed Scanner) = .ok (t.behind k earlier) := by
  cases run
  rw [same]

theorem if_behind {p : Prop} [Decidable p] {x y x' y' : Parsed Scanner} {t : Scanner}
    (yes : x = .ok t → x' = .ok (t.behind k earlier))
    (no : y = .ok t → y' = .ok (t.behind k earlier)) (run : (if p then x else y) = .ok t) :
    (if p then x' else y') = .ok (t.behind k earlier) := by
  split
  · next holds => exact yes ((if_pos holds).symm.trans run)
  · next fails => exact no ((if_neg fails).symm.trans run)

theorem read_behind {s t : Scanner} {c : Char} (run : s.read c = .ok t) :
    (s.behind k earlier).read c = .ok (t.behind k earlier) := by
  obtain ⟨mode, line, start, tokens⟩ := s
  cases mode with
  | blank => exact ok_behind k earlier (begin_behind k earlier _ c) run
  | word text =>
    exact if_behind k earlier (ok_behind k earlier rfl)
      (ok_behind k earlier (flush_begin_behind k earlier _ c)) run
  | number text =>
    exact if_behind k earlier (ok_behind k earlier rfl)
      (ok_behind k earlier (flush_begin_behind k earlier _ c)) run
  | slash =>
    exact if_behind k earlier (ok_behind k earlier rfl)
      (if_behind k earlier (ok_behind k earlier rfl)
        (ok_behind k earlier (flush_begin_behind k earlier _ c))) run
  | equals =>
    exact if_behind k earlier (ok_behind k earlier rfl)
      (ok_behind k earlier (flush_begin_behind k earlier _ c)) run
  | lineComment =>
    refine ok_behind k earlier ?_ run
    split <;> rfl
  | blockComment star => exact ok_behind k earlier rfl run
  | string quote escaped =>
    refine if_behind k earlier (fun open' => by contradiction) ?_ run
    exact if_behind k earlier (ok_behind k earlier rfl)
      (if_behind k earlier (ok_behind k earlier rfl) (ok_behind k earlier rfl))

theorem step_behind {s t : Scanner} {c : Char} (run : s.step c = .ok t) :
    (s.behind k earlier).step c = .ok (t.behind k earlier) := by
  obtain ⟨r, read, run⟩ := bind_eq_ok.mp run
  refine bind_eq_ok.mpr ⟨_, read_behind k earlier read, ?_⟩
  refine ok_behind k earlier ?_ run
  split
  · exact congrArg (Scanner.mk r.mode · (r.start + k) (r.tokens.map (Token.down k) ++ earlier))
      (Nat.add_right_comm r.line k 1)
  · rfl

theorem run_behind {s t : Scanner} {cs : List Char} (run : cs.foldlM step s = .ok t) :
    cs.foldlM step (s.behind k earlier) = .ok (t.behind k earlier) := by
  induction cs generalizing s with
  | nil =>
    obtain rfl := Except.ok.inj run
    rfl
  | cons c cs ih =>
    obtain ⟨r, first, run⟩ := bind_eq_ok.mp run
    exact bind_eq_ok.mpr ⟨_, step_behind k earlier first, ih run⟩

end

theorem flush_line (s : Scanner) : s.flush.line = s.line := by
  obtain ⟨mode, line, start, tokens⟩ := s
  cases mode <;> rfl

theorem begin_line (s : Scanner) (c : Char) : (s.begin c).line = s.line := by
  unfold begin
  repeat' split
  all_goals rfl

theorem flush_begin_line (s : Scanner) (c : Char) : (s.flush.begin c).line = s.line := by
  rw [begin_line, flush_line]

theorem read_line {s t : Scanner} {c : Char} (run : s.read c = .ok t) : t.line = s.line := by
  unfold read at run
  split at run
  all_goals repeat' split at run
  all_goals first | contradiction | cases run
  all_goals first | rfl | exact begin_line s c | exact flush_begin_line s c

theorem step_line {s t : Scanner} {c : Char} (run : s.step c = .ok t) :
    t.line = s.line + if c = '\n' then 1 else 0 := by
  obtain ⟨r, read, run⟩ := bind_eq_ok.mp run
  rw [← read_line read]
  cases run
  split <;> rfl

theorem run_line {s t : Scanner} {cs : List Char} (run : cs.foldlM step s = .ok t) :
    t.line = s.line + cs.count '\n' := by
  induction cs generalizing s with
  | nil =>
    obtain rfl := Except.ok.inj run
    rfl
  | cons c cs ih =>
    obtain ⟨r, first, run⟩ := bind_eq_ok.mp run
    rw [ih run, step_line first, List.count_cons]
    simp only [beq_iff_eq]
    omega

theorem run_start {cs : List Char} (left : cs ≠ []) (line start start' : Nat) (tokens : List Token) :
    cs.foldlM step ⟨.blank, line, start, tokens⟩ = cs.foldlM step ⟨.blank, line, start', tokens⟩ := by
  cases cs with
  | nil => contradiction
  | cons c cs => rfl

theorem step_newline {t : Scanner} {ts : List Token} (ended : t.finish = .ok ts) :
    ∃ start, t.step '\n' = .ok ⟨.blank, t.line + 1, start, ts.reverse⟩ := by
  obtain ⟨mode, line, start, tokens⟩ := t
  cases mode with
  | blockComment star => contradiction
  | string quote escaped => contradiction
  | _ =>
    obtain rfl := Except.ok.inj ended
    rw [List.reverse_reverse]
    exact ⟨_, rfl⟩

end Scanner

namespace SourceFile

theorem exists_of_readable (content : String)
    (readable : (tokenize content.toList >>= SourceUnit.ofTokens).isOk = true) :
    ∃ f : SourceFile, f.content = content := by
  cases tokenized : tokenize content.toList with
  | error e =>
    rw [tokenized] at readable
    contradiction
  | ok tokens =>
    cases parsed : SourceUnit.ofTokens tokens with
    | error e =>
      rw [bind_of_eq_ok tokenized, parsed] at readable
      contradiction
    | ok declared => exact ⟨⟨content, tokens, declared, tokenized, parsed⟩, rfl⟩

def lines (f : SourceFile) : List Char :=
  f.content.toList ++ ['\n']

theorem run_alone (f : SourceFile) :
    ∃ start, f.lines.foldlM Scanner.step .initial =
      .ok ⟨.blank, f.height + 1, start, f.tokens.reverse⟩ := by
  obtain ⟨t, run, ended⟩ := bind_eq_ok.mp f.tokenized
  obtain ⟨start, newline⟩ := Scanner.step_newline ended
  have bottom : t.line = f.height := (Scanner.run_line run).trans (Nat.add_comm 1 _)
  refine ⟨start, ?_⟩
  rw [lines, List.foldlM_append, bind_of_eq_ok run, ← bottom]
  exact bind_eq_ok.mpr ⟨_, newline, rfl⟩

theorem run_lines (f : SourceFile) (k start : Nat) (earlier : List Token) :
    ∃ start', f.lines.foldlM Scanner.step ⟨.blank, k + 1, start, earlier⟩ =
      .ok ⟨.blank, k + f.height + 1, start', (f.tokens.map (Token.down k)).reverse ++ earlier⟩ := by
  obtain ⟨last, alone⟩ := f.run_alone
  have left : f.lines ≠ [] := List.append_ne_nil_of_right_ne_nil _ (List.cons_ne_nil _ _)
  have top : Scanner.initial.behind k earlier = ⟨.blank, k + 1, k + 1, earlier⟩ := by
    rw [Nat.add_comm k 1]
    rfl
  have bottom : k + f.height + 1 = f.height + 1 + k := by omega
  refine ⟨last + k, ?_⟩
  rw [Scanner.run_start left _ start (k + 1), ← top, bottom, ← List.map_reverse]
  exact Scanner.run_behind k earlier alone

/-- The tokens of files that are put together are the tokens of each, one after the other. -/
theorem run_files (files : List SourceFile) (k start : Nat) (earlier : List Token) :
    ((files.flatMap lines).foldlM Scanner.step ⟨.blank, k + 1, start, earlier⟩ >>=
      Scanner.finish) = .ok (earlier.reverse ++ tokensBelow k files) := by
  induction files generalizing k start earlier with
  | nil => exact congrArg Except.ok (List.append_nil _).symm
  | cons f fs ih =>
    obtain ⟨start', run⟩ := run_lines f k start earlier
    rw [List.flatMap_cons, List.foldlM_append, run]
    refine (ih (k + f.height) start' _).trans ?_
    simp [tokensBelow]

theorem tokenize_files (files : List SourceFile) :
    tokenize (files.flatMap lines) = .ok (tokensBelow 0 files) :=
  run_files files 0 1 []

end SourceFile

end ContractRegistry.Source
